import Tcpkit.Refinement

/-! Which request a latency sample belongs to, over whole runs. A request that
was admitted waits in its slot until the slot is answered or swept; the sample
of an answer is taken against the request that waits there. -/

namespace Tcpkit

namespace Monitor

structure Run extends Trace Monitor.next where
  fresh : state 0 = start

namespace Run

variable (t : Run) {client server client' server' : Endpoint} {i j k : Fin t.length}

def swept (k : Fin t.length) : Monitor := (t.state k).expire (t.input k).tv

def Admits (i : Fin t.length) (client server : Endpoint) : Prop :=
  (t.state i).Admits (t.input i) client server

/-- The request of input `i` is what input `j` finds in the slot. -/
def Waits (i : Fin t.length) (client server : Endpoint) (j : Fin t.length) : Prop :=
  i < j ∧ t.Admits i client server ∧
    ∀ m, i < m → m ≤ j →
      (t.swept m).pending.lookup (client, server) = some (t.input i).tv

/-- Input `k` empties a slot that was taken, by its sweep or as an answer. -/
def Empties (k : Fin t.length) (client server : Endpoint) : Prop :=
  ((t.state k).pending.lookup (client, server)).isSome ∧
    ((t.swept k).pending.lookup (client, server) = none ∨
      (t.state (k + 1)).pending.lookup (client, server) = none)

variable {t}

/-- What is in a slot was put there by an input whose request stayed since. -/
theorem exists_admits {n : Nat} (hn : n ≤ t.length) {asked : Timeval}
    (h : (t.state n).pending.lookup (client, server) = some asked) :
    ∃ i : Fin t.length, i < n ∧ (t.input i).tv = asked ∧ t.Admits i client server ∧
      ∀ m : Fin t.length, i < m → m < n →
        (t.swept m).pending.lookup (client, server) = some asked := by
  induction n with
  | zero =>
    rw [t.fresh, start, Finmap.lookup_empty] at h
    cases h
  | succ n ih =>
    let k : Fin t.length := ⟨n, hn⟩
    have hnext : (t.state k).next (t.input k) = t.state (n + 1) := (t.next k).symm
    by_cases hr : (t.state k).Responds (t.input k) client server
    · rw [← hnext, hr.lookup_next] at h
      cases h
    · by_cases ha : (t.state k).Admits (t.input k) client server
      · rw [← hnext, ha.lookup_next] at h
        refine ⟨k, Nat.lt_succ_self n, Option.some.inj h, ha, fun m hkm hm => ?_⟩
        have : n < m := hkm
        omega
      · rw [← hnext, lookup_next_of_not hr ha] at h
        obtain ⟨i, hi, htv, hadm, hbetween⟩ := ih (by omega) (lookup_of_lookup_expire h)
        refine ⟨i, by omega, htv, hadm, fun m him hm => ?_⟩
        by_cases hmk : m = k
        · subst hmk
          exact h
        · have hne : (m : Nat) ≠ n := fun he => hmk (Fin.ext he)
          exact hbetween m him (by omega)

theorem exists_waits {asked : Timeval}
    (h : (t.swept j).pending.lookup (client, server) = some asked) :
    ∃ i, t.Waits i client server j ∧ (t.input i).tv = asked := by
  obtain ⟨i, hi, htv, hadm, hbetween⟩ :=
    exists_admits (Nat.le_of_lt j.isLt) (lookup_of_lookup_expire h)
  refine ⟨i, ⟨hi, hadm, fun m him hm => ?_⟩, htv⟩
  rw [htv]
  by_cases hmj : m = j
  · subst hmj
    exact h
  · have hlt : m < j := lt_of_le_of_ne hm hmj
    exact hbetween m him hlt

theorem Waits.not_lt (h : t.Waits i client server j) (hk : t.Waits k client server j) :
    ¬i < k := by
  intro hik
  have hempty := hk.2.1.2.1
  have hfull := h.2.2 k hik (Fin.le_of_lt hk.1)
  exact absurd (hempty.symm.trans hfull) (by simp)

theorem Waits.unique (h : t.Waits i client server j) (hk : t.Waits k client server j) : i = k := by
  have hik := h.not_lt hk
  have hki := hk.not_lt h
  omega

theorem Waits.registered (h : t.Waits i client server j) (hik : i ≤ k) :
    (t.state k).Registered server := by
  obtain ⟨n, -, -, hr⟩ := h.2.1.1
  exact t.stable (P := fun m => m.Registered server) hik (Nat.le_of_lt k.isLt)
    (fun k _ _ hk => hk.next _) hr

theorem Waits.not_responds (h : t.Waits i client server j) (hik : i < k) (hkj : k < j) :
    ¬(t.state k).Responds (t.input k) client server := by
  intro hr
  let m : Fin t.length := ⟨k + 1, by omega⟩
  have hfull := lookup_of_lookup_expire (h.2.2 m (Nat.lt_succ_of_lt hik) hkj)
  have hempty := hr.lookup_next
  rw [← t.next k] at hempty
  exact absurd (hempty.symm.trans hfull) (by simp)

theorem Waits.not_reused {l : Fin t.length} (h : t.Waits i client server j)
    (hr : (t.state j).Responds (t.input j) client server)
    (h' : t.Waits i client' server' l) : ¬j < l := by
  intro hjl
  obtain ⟨rfl, rfl⟩ := h.2.1.1.unique h'.2.1.1
  exact h'.not_responds h.1 hjl hr

/-- An earlier request for a slot that was not emptied in between found the
table full or could not be stored. -/
theorem Waits.refused (h : t.Waits i client server j) (hki : k < i)
    (hreq : (t.state k).Requests (t.input k) client server)
    (hkept : ∀ m, k < m → m ≤ i → ¬t.Empties m client server) :
    (t.swept k).pending.lookup (client, server) = none ∧
      ((t.swept k).full = true ∨ (t.input k).stored = false) := by
  by_contra hno
  -- otherwise the slot was taken after input `k`, and it still is when `i` comes
  have htaken : ((t.state (k + 1)).pending.lookup (client, server)).isSome := by
    rw [t.next k]
    by_cases ha : (t.state k).Admits (t.input k) client server
    · rw [ha.lookup_next]
      rfl
    · rw [lookup_next_of_not hreq.not_responds ha]
      by_contra hempty
      have hnone : (t.swept k).pending.lookup (client, server) = none := by
        simpa [swept] using hempty
      have hrefused : (t.swept k).full = true ∨ (t.input k).stored = false := by
        by_contra hkeep
        rw [not_or, Bool.not_eq_true, Bool.not_eq_false] at hkeep
        exact ha ⟨hreq, hnone, hkeep⟩
      exact hno ⟨hnone, hrefused⟩
  have hstill : ((t.state i).pending.lookup (client, server)).isSome := by
    refine t.stable (P := fun m => (m.pending.lookup (client, server)).isSome)
      (Nat.succ_le_of_lt hki) (Nat.le_of_lt i.isLt) (fun m hkm hmi hm => ?_) htaken
    have hnot := hkept m (Nat.lt_of_succ_le hkm) (Nat.le_of_lt hmi)
    rw [← t.next m]
    by_contra hempty
    exact hnot ⟨hm, Or.inr (by simpa using hempty)⟩
  exact hkept i hki (Fin.le_refl i) ⟨hstill, Or.inl h.2.1.2.1⟩

end Run

end Monitor

namespace Capture

variable (r : Capture)

noncomputable def monitorRun : Monitor.Run := ⟨r.monitor, r.monitor_start⟩

variable (j : Fin r.packets.length) (client server : Endpoint)

def Registered (n : Nat) (e : Endpoint) : Prop := ((r.before n).synTab.get (endpointKey e)).isSome

def Data (src dst : Endpoint) : Prop :=
  0 < (r.packet j).payloadSize ∧ (r.packet j).src = src ∧ (r.packet j).dst = dst

/-- Classified as a request: only the destination is registered. -/
def Requests : Prop :=
  r.Data j client server ∧ r.Registered j server ∧ ¬r.Registered j client

def Responds : Prop := r.Data j server client ∧ r.Registered j server

def slot : Option Request := (r.swept j).requests.get (pairKey client server)

def Full : Prop := maxPendingRequests ≤ (r.swept j).requests.size

def Admits : Prop :=
  r.Requests j client server ∧ r.slot j client server = none ∧ ¬r.Full j ∧
    (r.packet j).allocs.keepsRequest = true

/-- The record of packet `i` is what packet `j` finds in the slot: it was put
there and has stayed at every packet since. -/
def Waits (i : Fin r.packets.length) (client server : Endpoint) (j : Fin r.packets.length) : Prop :=
  i < j ∧ r.Admits i client server ∧
    ∀ m, i < m → m ≤ j → (r.slot m client server).map Request.tv = some (r.packet i).tv

/-- Packet `j` empties a slot that was taken, by its sweep or as an answer. -/
def Empties : Prop :=
  ((r.before j).requests.get (pairKey client server)).isSome ∧
    (r.slot j client server = none ∨ (r.before (j + 1)).requests.get (pairKey client server) = none)

variable {r j client server}

theorem registered_iff {n : Nat} {e : Endpoint} :
    r.Registered n e ↔ (r.before n).toMonitor.Registered e :=
  (Sniffer.registered_iff _ _).symm

theorem data_iff {src dst : Endpoint} :
    r.Data j src dst ↔ ∃ size, (r.packet j).arrival.signal = .data src dst size := by
  have hn := (r.packet j).nonneg
  rw [Data, Packet.arrival, UserPacket.arrival]
  constructor
  · intro hh
    rcases hh with ⟨hpos, rfl, rfl⟩
    exact ⟨_, if_neg (by omega)⟩
  · intro hh
    rcases hh with ⟨size, h⟩
    simp only at h
    split at h
    · split at h <;> cases h
    · cases h
      exact ⟨by omega, rfl, rfl⟩

theorem requests_iff :
    r.Requests j client server ↔
      (r.before j).toMonitor.Requests (r.packet j).arrival client server := by
  rw [Requests, data_iff, registered_iff, registered_iff, Monitor.Requests]
  constructor
  · intro hh
    rcases hh with ⟨⟨size, h⟩, hs, hc⟩
    exact ⟨size, h, hc, hs⟩
  · intro hh
    rcases hh with ⟨size, h, hc, hs⟩
    exact ⟨⟨size, h⟩, hs, hc⟩

theorem responds_iff :
    r.Responds j client server ↔
      (r.before j).toMonitor.Responds (r.packet j).arrival client server := by
  rw [Responds, data_iff, registered_iff, Monitor.Responds, exists_and_right]

theorem lookup_swept :
    (r.monitorRun.swept j).pending.lookup (client, server) =
      (r.slot j client server).map Request.tv := by
  rw [slot, ← Sniffer.lookup_pending, swept_toMonitor]
  rfl

theorem full_iff : r.Full j ↔ (r.monitorRun.swept j).full = true := by
  have hswept : r.monitorRun.swept j = (r.swept j).toMonitor := (r.swept_toMonitor j).symm
  rw [Full, (r.swept_monitoring j).size_eq, hswept, Monitor.full, decide_eq_true_iff]

theorem Data.stored_eq {src dst : Endpoint} (h : r.Data j src dst) :
    (r.packet j).arrival.stored = (r.packet j).allocs.keepsRequest :=
  if_neg (ne_of_gt h.1)

theorem admits_iff : r.Admits j client server ↔ r.monitorRun.Admits j client server := by
  have hstored : r.Requests j client server → r.slot j client server = none → ¬r.Full j →
      ((r.packet j).allocs.keepsRequest = true ↔ (r.packet j).arrival.stored = true) :=
    fun hreq _ _ => by rw [hreq.1.stored_eq]
  rw [Admits, and_congr_right fun hreq => and_congr_right fun hnone => and_congr_right fun hroom =>
    hstored hreq hnone hroom, requests_iff, full_iff, Bool.not_eq_true,
    ← Option.map_eq_none_iff (f := Request.tv), ← lookup_swept]
  rfl

theorem waits_iff {i : Fin r.packets.length} :
    r.Waits i client server j ↔ r.monitorRun.Waits i client server j := by
  rw [Waits, admits_iff]
  simp only [← lookup_swept]
  rfl

theorem empties_iff : r.Empties j client server ↔ r.monitorRun.Empties j client server := by
  change _ ↔ (((r.before j).toMonitor.pending.lookup (client, server)).isSome ∧
    ((r.monitorRun.swept j).pending.lookup (client, server) = none ∨
      (r.before (j + 1)).toMonitor.pending.lookup (client, server) = none))
  rw [Empties, lookup_swept, Sniffer.lookup_pending, Sniffer.lookup_pending, Option.isSome_map,
    Option.map_eq_none_iff, Option.map_eq_none_iff]

theorem sample_iff {latency : Int} : .sample server latency ∈ r.events j ↔
    ∃ client req, r.Responds j client server ∧ r.slot j client server = some req ∧
      latency = tvDeltaUs (r.packet j).tv req.tv := by
  rw [mem_events_iff, Monitor.mem_samples_iff]
  simp only [← responds_iff]
  have hlook (client : Endpoint) :
      ((r.before j).toMonitor.expire (r.packet j).arrival.tv).pending.lookup (client, server) =
        (r.slot j client server).map Request.tv := lookup_swept
  simp only [hlook, Option.map_eq_some_iff]
  constructor
  · intro hh
    rcases hh with ⟨client, asked, hr, ⟨req, hreq, rfl⟩, hd⟩
    exact ⟨client, req, hr, hreq, hd⟩
  · intro hh
    rcases hh with ⟨client, req, hr, hreq, hd⟩
    exact ⟨client, _, hr, ⟨req, hreq, rfl⟩, hd⟩

theorem exists_waits_of_sample {latency : Int} (h : .sample server latency ∈ r.events j) :
    ∃ client i, r.Responds j client server ∧ r.Waits i client server j ∧
      latency = tvDeltaUs (r.packet j).tv (r.packet i).tv := by
  obtain ⟨client, req, hr, hslot, rfl⟩ := sample_iff.mp h
  have hlook : (r.monitorRun.swept j).pending.lookup (client, server) = some req.tv := by
    rw [lookup_swept, hslot, Option.map_some]
  obtain ⟨i, hw, htv⟩ := Monitor.Run.exists_waits hlook
  refine ⟨client, i, hr, waits_iff.mpr hw, ?_⟩
  rw [← htv]
  rfl

section Waits

variable {i m : Fin r.packets.length} (h : r.Waits i client server j)

include h

theorem Waits.registered (him : i ≤ m) : r.Registered m server :=
  registered_iff.mpr ((waits_iff.mp h).registered him)

theorem Waits.no_data (him : i < m) (hmj : m < j) : ¬r.Data m server client := by
  intro hdata
  exact (waits_iff.mp h).not_responds him hmj (responds_iff.mp ⟨hdata, h.registered (le_of_lt him)⟩)

theorem Waits.sample (hd : r.Data j server client) :
    .sample server (tvDeltaUs (r.packet j).tv (r.packet i).tv) ∈ r.events j := by
  obtain ⟨req, hslot, htv⟩ := Option.map_eq_some_iff.mp (h.2.2 j h.1 (le_refl j))
  exact sample_iff.mpr ⟨client, req, ⟨hd, h.registered (le_of_lt h.1)⟩, hslot, by rw [htv]⟩

end Waits

def Allocates (r : Capture) : Prop := ∀ j, (r.packet j).allocs = Allocs.all

end Capture

def redisOptions : Options := { protocol := .redis }

theorem redisOptions_noScript : redisOptions.script = none := rfl

theorem redisOptions_notRaw : redisOptions.protocol ≠ .raw := by decide

/-- A handshake, a request and its answer half a millisecond later. -/
def pingCapture : Capture where
  opts := redisOptions
  datalink := .raw
  packets :=
    [⟨⟨0x02, true, ⟨0, 0⟩, 1, 2, 1000, 6379, 0, 0, 0, 60, 0, 0, []⟩, by decide, by decide, Allocs.all⟩,
      ⟨⟨0x18, true, ⟨0, 1000⟩, 1, 2, 1000, 6379, 0, 0, 0, 64, 4, 4, [80, 73, 78, 71]⟩, by decide,
        by decide, Allocs.all⟩,
      ⟨⟨0x18, true, ⟨0, 1500⟩, 2, 1, 6379, 1000, 0, 0, 0, 65, 5, 5, [80, 79, 78, 71, 13]⟩,
        by decide, by decide, Allocs.all⟩]
  noScript := redisOptions_noScript
  notRaw := redisOptions_notRaw

theorem pingCapture_allocates : pingCapture.Allocates := by
  rw [Capture.Allocates]
  decide

end Tcpkit
