import Mathlib.Data.Set.Card
import Tcpkit.Matching
import Tcpkit.StatsBalance

/-! The capture thread as the sequence of its critical sections, with the stats
thread free to take a snapshot of the endpoints between any two of them. -/

namespace Tcpkit

structure World where
  todo : List Packet
  pc : CapturePc
  sniffer : Sniffer
  snapshots : List (List QueryStats)

/-- Which thread runs next; the walk of the stats thread makes allocations. -/
inductive Turn where
  | capture
  | stats (allocOk : Int → Bool)

namespace World

/-- One section of the capture thread. The sections of the lock are those at
`direction`, `sample` and `registration`. -/
def capture (w : World) : World :=
  match w.pc with
  | .idle =>
    match w.todo with
    | [] => w
    | p :: rest =>
      { w with todo := rest, pc := .received p, sniffer := expireStaleRequests w.sniffer p.tv }
  | .direction p =>
    let directed := packetDirection w.sniffer p.toUserPacket
    { w with pc := .directed p directed.2, sniffer := directed.1 }
  | .response p =>
    { w with
      pc := match w.sniffer.requests.get (pairKey p.dst p.src) with
        | none => .idle
        | some req => .sample p req }
  | .sample p req =>
    { w with
      pc := .finish p req
      sniffer := (observeResponse w.sniffer p.src (tvDeltaUs p.tv req.tv)).1 }
  | .finish p req =>
    { w with pc := .idle, sniffer := (finishResponse w.sniffer p.toUserPacket req).1 }
  | .request p =>
    { w with
      pc := .idle
      sniffer := (processRequestPacket p.allocs w.sniffer p.toUserPacket).get
        (processRequestPacket_isSome p.readable p.allocs w.sniffer) }
  | .registration p =>
    { w with pc := .idle, sniffer := registerEndpoint p.allocs w.sniffer p.named }

/-- `server_stats_to_json` holds the lock over the whole walk of the endpoints. -/
def snapshot (w : World) (allocOk : Int → Bool) : World :=
  match hashtableValues allocOk w.sniffer.synTab.toHashtable with
  | none => w
  | some (values, _) => { w with snapshots := w.snapshots ++ [values] }

def step (w : World) : Turn → World
  | .capture => w.capture
  | .stats allocOk => w.snapshot allocOk

def run (w : World) (turns : List Turn) : World := turns.foldl step w

end World

def Capture.world (r : Capture) : World :=
  ⟨r.packets, .idle, snifferCreate r.opts r.datalink, []⟩

namespace World

variable {w : World} {total : Nat}

def Bounded (values : List QueryStats) : Prop :=
  ∀ stats ∈ values, stats.samples ≤ stats.requests ∧ stats.samples ≤ stats.responses

structure Consistent (w : World) (total : Nat) : Prop where
  left : w.todo.length ≤ total
  monitoring : w.sniffer.Monitoring
  balanced : w.sniffer.toMonitor.Balanced w.pc (total - w.todo.length)
  bounded : ∀ values ∈ w.snapshots, Bounded values

namespace Consistent

theorem move (h : w.Consistent total) {pc : CapturePc} {s : Sniffer} (hs : s.Monitoring)
    (hb : s.toMonitor.Balanced pc (total - w.todo.length)) :
    Consistent { w with pc := pc, sniffer := s } total :=
  ⟨h.left, hs, hb, h.bounded⟩

theorem capture (h : w.Consistent total) (ht : total < 2 ^ 64) : w.capture.Consistent total := by
  have hn : total - w.todo.length < 2 ^ 64 := by omega
  have hm := h.monitoring
  have hb := h.balanced
  rw [World.capture]
  split
  · rename_i hpc
    rw [hpc] at hb
    split
    · exact h
    · rename_i p rest htodo
      have hleft := h.left
      rw [htodo, List.length_cons] at hleft hb
      refine ⟨by simp only; omega, hm.expire _, ?_, h.bounded⟩
      rw [Sniffer.toMonitor_expire]
      have hcount : total - rest.length = total - (rest.length + 1) + 1 := by omega
      simp only [hcount]
      exact hb.receive p
  · rename_i p hpc
    rw [hpc] at hb
    obtain ⟨hcount, hdir⟩ := Sniffer.toMonitor_direction w.sniffer p.toUserPacket
    apply h.move (hm.direction _)
    rw [hcount, hdir]
    exact hb.direct hn
  · rename_i p hpc
    rw [hpc] at hb
    apply h.move hm
    cases hg : w.sniffer.requests.get (pairKey p.dst p.src) with
    | none => exact hb.unanswered
    | some req =>
      apply hb.answer
      rw [Monitor.mem_waiting, Sniffer.lookup_pending, hg]
      rfl
  · rename_i p req hpc
    rw [hpc] at hb
    apply h.move (hm.observe _ _)
    rw [(Sniffer.toMonitor_observe _ _ _).1]
    exact hb.sample hn _
  · rename_i p req hpc
    rw [hpc] at hb
    apply h.move (hm.finish _ _)
    rw [(Sniffer.toMonitor_finish _ _ _).1]
    exact hb.finish
  · rename_i p hpc
    rw [hpc] at hb
    have hstep := (Option.some_get (processRequestPacket_isSome p.readable p.allocs w.sniffer)).symm
    apply h.move (hm.request p.readable hstep)
    rw [Sniffer.toMonitor_request hm p.readable hstep]
    split
    · exact hb.enter _
    · exact hb.drop
  · rename_i p hpc
    rw [hpc] at hb
    apply h.move (hm.register _ _)
    rw [Sniffer.toMonitor_register]
    split
    · exact hb.register _
    · exact hb.unregistered

theorem snapshot (h : w.Consistent total) (allocOk : Int → Bool) :
    (w.snapshot allocOk).Consistent total := by
  rw [World.snapshot]
  split
  · exact h
  · rename_i values cnt hv
    refine ⟨h.left, h.monitoring, h.balanced, fun listed hm => ?_⟩
    rcases List.mem_append.mp hm with hold | hnew
    · exact h.bounded listed hold
    · rw [List.mem_singleton] at hnew
      subst hnew
      intro stats hs
      obtain ⟨key, hkey⟩ := Table.get_of_mem_values hv hs
      have hmem : key ∈ w.sniffer.synTab.toMap.keys := by
        rw [Finmap.mem_keys_iff_isSome, Table.lookup_toMap, hkey]
        rfl
      obtain ⟨e, rfl⟩ := h.monitoring.synKeys key hmem
      exact h.balanced.samples_le (by rw [Sniffer.lookup_stats, hkey])

theorem step (h : w.Consistent total) (ht : total < 2 ^ 64) (turn : Turn) :
    (w.step turn).Consistent total := by
  cases turn with
  | capture => exact h.capture ht
  | stats allocOk => exact h.snapshot allocOk

theorem run (h : w.Consistent total) (ht : total < 2 ^ 64) (turns : List Turn) :
    (w.run turns).Consistent total := by
  induction turns generalizing w with
  | nil => exact h
  | cons turn turns ih => exact ih (h.step ht turn)

end Consistent

/-- The sections of one packet, run with nothing in between, are
`process_user_packet`. -/
theorem run_packet {s : Sniffer} (hs : s.Monitoring) (p : Packet)
    (snapshots : List (List QueryStats)) :
    run ⟨[p], .idle, s, snapshots⟩ (List.replicate 5 .capture) =
      ⟨[], .idle, (s.process p).1, snapshots⟩ := by
  simp only [run, List.replicate, List.foldl_cons, List.foldl_nil, step]
  rcases hs.process_cases p with ⟨h0, hsyn, hproc⟩ | ⟨h0, hsyn, hproc⟩ | ⟨h0, hd, hproc⟩ |
    ⟨h0, hd, s', hs', hproc⟩ | ⟨h0, hd, hproc⟩
  · simp only [capture, CapturePc.received, h0, hsyn, if_true, hproc]
  · simp only [capture, CapturePc.received, h0, hsyn, if_true, hproc, Bool.false_eq_true, if_false]
  · rw [hproc]
    cases hg : (packetDirection (expireStaleRequests s p.tv)
        p.toUserPacket).1.requests.get (pairKey p.dst p.src) with
    | none =>
      simp only [capture, CapturePc.received, if_neg h0, hd, CapturePc.directed, hg,
        processResponsePacket]
    | some req =>
      simp only [capture, CapturePc.received, if_neg h0, hd, CapturePc.directed, hg,
        processResponsePacket]
  · simp only [capture, CapturePc.received, if_neg h0, hd, CapturePc.directed, hs', Option.get_some,
      hproc]
  · simp only [capture, CapturePc.received, if_neg h0, hd, CapturePc.directed, hproc]

end World

theorem Capture.consistent (r : Capture) : r.world.Consistent r.packets.length := by
  refine ⟨Nat.le_refl _, Sniffer.Monitoring.create r.noScript r.notRaw r.datalink, ?_,
    fun values hm => absurd hm List.not_mem_nil⟩
  have hzero : r.packets.length - r.world.todo.length = 0 := Nat.sub_self _
  rw [hzero]
  change (snifferCreate r.opts r.datalink).toMonitor.Balanced .idle 0
  rw [Sniffer.toMonitor_create]
  exact Monitor.Balanced.start

theorem Sniffer.encard_pending (s : Sniffer) (server : Endpoint) :
    {client | (s.requests.get (pairKey client server)).isSome}.encard =
      (s.toMonitor.waiting server).card := by
  rw [← Set.encard_coe_eq_coe_finsetCard]
  congr 1
  ext client
  rw [Set.mem_ofPred_eq, Finset.mem_coe, Monitor.mem_waiting, lookup_pending, Option.isSome_map]

/-- Under every schedule, whatever the allocators do: each snapshot lists no
endpoint with more samples than requests or responses, and between two packets
the pending requests of an endpoint are covered by its requests as well. -/
theorem Capture.snapshots_bounded (r : Capture) (hlen : r.packets.length < 2 ^ 64)
    (turns : List Turn) :
    (∀ values ∈ (r.world.run turns).snapshots, ∀ stats ∈ values,
      stats.samples ≤ stats.requests ∧ stats.samples ≤ stats.responses) ∧
    ((r.world.run turns).pc = .idle → ∀ (server : Endpoint) (stats : QueryStats),
      (r.world.run turns).sniffer.synTab.get (endpointKey server) = some stats →
      (stats.samples : ℕ∞) +
        {client | ((r.world.run turns).sniffer.requests.get (pairKey client server)).isSome}.encard ≤
        stats.requests) := by
  have h := r.consistent.run hlen turns
  refine ⟨h.bounded, fun hidle server stats hget => ?_⟩
  have hb := h.balanced
  rw [hidle] at hb
  have hle := hb.samples_add_waiting_le (by rw [Sniffer.lookup_stats, hget])
  rw [Sniffer.encard_pending]
  exact_mod_cast hle

/-- A snapshot after the request is counted, one between the sample and the
deletion of its request, and one at the end. -/
def pingTurns : List Turn :=
  List.replicate 4 .capture ++ [.stats fun _ => true] ++
    List.replicate 5 .capture ++ [.stats fun _ => true, .capture] ++
    [.stats fun _ => true]

theorem snapshots_bounded_ping :
    (pingCapture.world.run pingTurns).snapshots.map (fun values =>
      values.map fun stats => (stats.requests, stats.responses, stats.samples)) =
        [[(1, 0, 0)], [(1, 1, 1)], [(1, 1, 1)]] ∧
    ∀ values ∈ (pingCapture.world.run pingTurns).snapshots, ∀ stats ∈ values,
      stats.samples ≤ stats.requests ∧ stats.samples ≤ stats.responses :=
  ⟨by decide +kernel, (pingCapture.snapshots_bounded (by decide) pingTurns).1⟩

end Tcpkit
