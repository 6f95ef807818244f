import Tcpkit.ReportMemory
import Tcpkit.ServerWrites

/-! The loop of the statistics server from the sniffer to the socket: the report of each client is built
in memory, printed, given back and written out. -/

namespace Tcpkit

open Memory JsonMemory

/-- A client that `accept` has returned, and what `write` does on its socket. -/
structure StatsClient extends ReportCall where
  outcomes : List WriteOutcome

section Loop

variable {ν : Type} [DecidableEq ν]

def serveClient (malloc : Allocator ν) (dispositions : SignalNumber → Disposition)
    (after : Nat → Sniffer)
    (client : StatsClient) : Routine ν (JsonBlock ν) Delivery := do
  match ← JsonMemory.serverStatsToJson malloc client.allocOk client.hooks
      (after client.packets).synTab.toHashtable with
  | some statsBuf => return writeAll dispositions statsBuf.bytes 0 client.outcomes
  | none => return ⟨[], .returned⟩

/-- The clients of `server_stats_loop` one after the other, as long as `write_all` comes back. -/
def serverStatsLoop (malloc : Allocator ν) (dispositions : SignalNumber → Disposition)
    (after : Nat → Sniffer) : List StatsClient → Routine ν (JsonBlock ν) (List Delivery)
  | [] => return []
  | client :: clients => do
    let r ← serveClient malloc dispositions after client
    if r.fate = .returned then
      let deliveries ← serverStatsLoop malloc dispositions after clients
      return r :: deliveries
    else return [r]

/-- Nothing that the report takes is refused. -/
structure StatsClient.Granted (after : Nat → Sniffer) (client : StatsClient) : Prop where
  few : (after client.packets).synTab.entries.length ≤ 2 ^ 30
  values : ∀ cnt, client.allocOk cnt = true

/-- What is sent is from the front of the text of the report, all of it where every write goes
through. Read back it has one member for each registered endpoint and no other. -/
def StatsClient.Receives (after : Nat → Sniffer) (client : StatsClient) (r : Delivery) : Prop :=
  ∃ json members,
    serverStatsToJson (after client.packets) = some json ∧
    r.sent <+: (json.item.print true).bytes ∧
    ((∀ o ∈ client.outcomes, o.Goes) → r.fate = .returned → r.sent = (json.item.print true).bytes ∨
      r.sent = [] ∧ ((∃ k, client.hooks k = none) ∨ intMax < (json.item.print true).strlen + 2)) ∧
    cJsonParse (fun _ => true) (json.item.print true) = some (some (.object members)) ∧
    (members.map Prod.fst).Nodup ∧
    ∀ name item, (name, item) ∈ members ↔ ∃ e stats,
      (after client.packets).synTab.get (endpointKey e) = some stats ∧ name = endpointName e ∧
        item = parsedStats stats

theorem serverStatsToJson_item {s : Sniffer} (hfew : s.synTab.entries.length ≤ 2 ^ 30) :
    ∃ json, serverStatsToJson s = some json ∧ json.item = s.report := by
  refine ⟨_, serverStatsToJson_eq s, ?_⟩
  rw [List.take_of_length_le hfew]
  exact congrArg JsonItem.object (itemMembers_map _ _ _)

variable {opts : Options} {datalink : LinkType} {packets : List Packet} {malloc : Allocator ν}

theorem serveClient_spec (hmalloc : ¬Refuses malloc) (dispositions : SignalNumber → Disposition)
    {client : StatsClient} (hgranted : client.Granted fun n =>
      Sniffer.after opts datalink (packets.take n)) :
    Ensures 0 (serveClient malloc dispositions
      (fun n => Sniffer.after opts datalink (packets.take n)) client)
      (fun r R => R = 0 ∧ client.Receives (fun n =>
        Sniffer.after opts datalink (packets.take n)) r) := by
  obtain ⟨json, hjson, hitem⟩ := serverStatsToJson_item hgranted.few
  obtain ⟨members, hparse, hnodup, hmembers⟩ :=
    report_reads_back (rfl : Sniffer.after opts datalink (packets.take client.packets) = _)
  rw [← hitem] at hparse
  refine (serverStatsToJson_spec malloc client.allocOk client.hooks report_readable).bind
    fun text R h => ?_
  obtain ⟨lost, rfl, hlost, -, hfull⟩ := h
  obtain rfl := hlost.resolve_left hmalloc
  have htext := hfull hgranted.few hgranted.values hmalloc
  rw [← hitem] at htext
  rcases htext with rfl | ⟨rfl, hcause⟩
  · refine Ensures.pure ⟨rfl, json, members, hjson, writeAll_sent_in_order _ _ 0 _, ?_, hparse,
      hnodup, hmembers⟩
    exact fun hgo hret => .inl (writeAll_sent_all hgo hret)
  · refine Ensures.pure ⟨rfl, json, members, hjson, List.nil_prefix, ?_, hparse, hnodup, hmembers⟩
    exact fun _ _ => .inr ⟨rfl, hcause⟩

theorem serverStatsLoop_spec (hmalloc : ¬Refuses malloc) (dispositions : SignalNumber → Disposition)
    {clients : List StatsClient}
    (hgranted : ∀ client ∈ clients, client.Granted fun n =>
      Sniffer.after opts datalink (packets.take n)) :
    Ensures 0 (serverStatsLoop malloc dispositions
      (fun n => Sniffer.after opts datalink (packets.take n)) clients)
      (fun deliveries R => R = 0 ∧
        List.Forall₂ (StatsClient.Receives fun n => Sniffer.after opts datalink (packets.take n))
          (clients.take deliveries.length) deliveries ∧
        (deliveries.length = clients.length ∨ ∃ r ∈ deliveries.getLast?, r.fate ≠ .returned)) := by
  induction clients with
  | nil => exact Ensures.pure ⟨rfl, .nil, .inl rfl⟩
  | cons client clients ih =>
    refine (serveClient_spec hmalloc dispositions (hgranted client List.mem_cons_self)).bind ?_
    rintro r _ ⟨rfl, hr⟩
    by_cases hret : r.fate = .returned
    · rw [if_pos hret]
      refine (ih fun c hc => hgranted c (List.mem_cons_of_mem _ hc)).bind ?_
      rintro deliveries _ ⟨rfl, hall, hlast⟩
      refine Ensures.pure ⟨rfl, .cons hr hall, hlast.imp (congrArg (· + 1)) ?_⟩
      rintro ⟨l, hl, hfate⟩
      refine ⟨l, ?_, hfate⟩
      cases deliveries with
      | nil => cases hl
      | cons d ds => rwa [List.getLast?_cons_cons]
    · rw [if_neg hret]
      exact Ensures.pure ⟨rfl, .cons hr .nil, .inr ⟨r, rfl, hret⟩⟩

end Loop

def plentyMemory : Allocator Nat := fun _ => some nextAbove

/-- Two clients, one before the capture and one after it whose text goes out in two writes. -/
def pingClients : List StatsClient :=
  [⟨⟨0, fun _ => true, fun _ => some fun _ => 0⟩, [.wrote 4096 (by decide)]⟩,
    ⟨⟨3, fun _ => true, fun _ => some fun _ => 0⟩,
      [.wrote 100 (by decide), .interrupted, .wrote 4096 (by decide)]⟩]

theorem pingCapture_few (n : Nat) : (Sniffer.after pingCapture.opts pingCapture.datalink
    (pingCapture.packets.take n)).synTab.entries.length ≤ 2 ^ 30 := by
  have hfew : ∀ k : Fin 4, (Sniffer.after pingCapture.opts pingCapture.datalink
      (pingCapture.packets.take k)).synTab.entries.length ≤ 1 := by decide +kernel
  have htake : pingCapture.packets.take n = pingCapture.packets.take (min n 3) :=
    (List.take_eq_take_iff).mpr (by show min n 3 = min (min n 3) 3; omega)
  rw [htake]
  exact (hfew ⟨min n 3, by omega⟩).trans Nat.one_le_two_pow

end Tcpkit
