import Tcpkit.HeapErasure

/-! Which blocks a run loses. `packet.c` does not look at the result of
`hashtable_add`, so the block it hands over is lost when the table cannot
allocate an entry for it; nothing else loses or frees twice. -/

namespace Tcpkit

open MachineInt
open scoped List

namespace Table

variable {α : Type} (t : Table α)

theorem values_create (n : Nat) (hn : 0 < n) : (create n hn : Table α).values = [] := by
  simp [create, Hashtable.values, Hashtable.entries]

theorem values_add (m s : Bool) {key : CString} (hg : (t.get key).isSome = false) (value : α) :
    (t.add m s key value).values ~ if m && s then value :: t.values else t.values := by
  cases hok : m && s with
  | true =>
    obtain ⟨rfl, rfl⟩ := Bool.and_eq_true_iff.mp hok
    rw [Option.isSome_eq_false_iff, Option.isNone_iff_eq_none] at hg
    exact t.wellFormed.chained.values_add hg
  | false =>
    rw [add_of_alloc_failed hok]
    exact List.Perm.refl _

theorem values_adjust (key : CString) (f : α → α) {β : Type} (g : α → List β)
    (hg : ∀ v, g (f v) = g v) : (t.adjust key f).values.flatMap g = t.values.flatMap g := by
  have hentries := t.wellFormed.chained.adjust_entries key f
  simp only [Hashtable.values, List.flatMap_map]
  rw [show (t.adjust key f).entries = _ from hentries, List.flatMap_map]
  apply List.flatMap_congr
  intro e _
  split
  · exact hg e.value
  · rfl

end Table

namespace HeapSniffer

/-- Blocks are numbered in the order of their allocation. -/
def Numbered (s : HeapSniffer) : Prop := s.ledger.taken = List.range s.ledger.taken.length

theorem Numbered.fresh_notMem {s : HeapSniffer} (h : s.Numbered) : s.fresh ∉ s.ledger.taken := by
  rw [Numbered] at h
  rw [h, fresh, List.mem_range]
  exact lt_irrefl _

theorem Numbered.malloc {s : HeapSniffer} (h : s.Numbered) : s.malloc.Numbered := by
  rw [Numbered] at h ⊢
  simp only [HeapSniffer.malloc, Ledger.take, fresh, List.length_append, List.length_singleton,
    List.range_succ, ← h]

/-- The blocks that are in no table and were not freed are `lost`. -/
structure Tracks (s : HeapSniffer) (lost : List Block) : Prop where
  numbered : s.Numbered
  accounts : s.ledger.Accounts s.held lost

namespace Tracks

variable {s : HeapSniffer} {lost : List Block}

theorem create (opts : Options) (datalink : LinkType) : (create opts datalink).Tracks [] := by
  refine ⟨rfl, ?_⟩
  have hheld : (HeapSniffer.create opts datalink).held = [] := by
    simp [held, HeapSniffer.create, Table.values_create]
  rw [hheld]
  exact Ledger.Accounts.empty

theorem release (h : s.Tracks lost) (requests : Table HeapRequest) {freed : List HeapRequest}
    (hp : s.requests.values ~ freed ++ requests.values) :
    Tracks { s with
      requests := requests
      ledger := s.ledger.free (freed.flatMap freeRequest) } lost := by
  refine ⟨h.numbered, h.accounts.free ?_⟩
  have hblocks := hp.flatMap_right freeRequest
  rw [List.flatMap_append] at hblocks
  exact (hblocks.append_left _).trans (List.perm_append_comm_assoc _ _ _)

theorem expire (h : s.Tracks lost) (now : Timeval) : (s.expireStaleRequests now).Tracks lost := by
  rw [expireStaleRequests]
  split
  · exact ⟨h.numbered, h.accounts⟩
  · split
    · exact h
    · have hr := h.release (s.requests.sweep fun v => requestExpired now requestTimeoutUs v.request)
        (s.requests.wellFormed.values_sweep _)
      exact ⟨hr.numbered, hr.accounts⟩

theorem adjustStats (h : s.Tracks lost) (e : Endpoint) (f : QueryStats → QueryStats) :
    (s.adjustStats e f).Tracks lost := by
  refine ⟨h.numbered, ?_⟩
  have hheld : (s.adjustStats e f).held = s.held := by
    have hstats := s.synTab.values_adjust (endpointKey e)
      (fun v => { v with stats := f v.stats }) freeStats (fun _ => rfl)
    simp only [held, HeapSniffer.adjustStats, hstats]
  rw [hheld]
  exact h.accounts

theorem direction (h : s.Tracks lost) (p : UserPacket) : (s.packetDirection p).1.Tracks lost := by
  rw [packetDirection]
  split
  · exact h.adjustStats p.src (fun stats => statsIncr stats false (int32 p.size.toNat))
  · split
    · exact h.adjustStats p.dst (fun stats => statsIncr stats true (int32 p.size.toNat))
    · exact h

theorem forget (h : s.Tracks lost) (key : CString) : (s.forgetRequest key).Tracks lost :=
  h.release (s.requests.del key) (s.requests.wellFormed.chained.values_del key)

theorem response (h : s.Tracks lost) (p : UserPacket) :
    (s.processResponsePacket p).1.Tracks lost := by
  have hobserve (target : Endpoint) (delta : Int) :
      (s.observeResponse target delta).1.Tracks lost := by
    rw [observeResponse]
    split
    · exact h.adjustStats target (fun stats => statsObserverLatency stats delta)
    · exact h
  rw [processResponsePacket]
  cases s.requests.get (pairKey p.dst p.src) with
  | none => exact h
  | some v => exact (hobserve _ _).forget _

/-- The new block is in the table or, when the table has no entry for it, lost. -/
theorem register (h : s.Tracks lost) (a : Allocs) {e : Endpoint}
    (hg : (s.synTab.get (endpointKey e)).isSome = false) (ha : a.stats = true) :
    (registerEndpoint a s e).Tracks (if a.entry && a.key then lost else [s.fresh] ++ lost) := by
  have hvalues := s.synTab.values_add a.entry a.key hg ⟨s.fresh, QueryStats.zeroed e⟩
  rw [registerEndpoint, if_neg (by simp [hg]), if_pos ha]
  refine ⟨h.numbered.malloc, Ledger.Accounts.store [s.fresh]
    (h.accounts.take h.numbered.fresh_notMem) (fun hok => ?_) (fun hno => ?_)⟩
  · rw [hok, if_pos rfl] at hvalues
    exact (hvalues.flatMap_right freeStats).append_right _
  · simp only [held, Table.add_of_alloc_failed hno]
    rfl

theorem store (h : s.Tracks lost) (a : Allocs) {key : CString}
    (hg : (s.requests.get key).isSome = false) (req : Request) :
    Tracks { s.malloc.malloc with
      requests := s.requests.add a.entry a.key key ⟨s.fresh, s.malloc.fresh, req⟩ }
      (if a.entry && a.key then lost else [s.malloc.fresh, s.fresh] ++ lost) := by
  have hvalues := s.requests.values_add a.entry a.key hg ⟨s.fresh, s.malloc.fresh, req⟩
  have hreq := h.accounts.take h.numbered.fresh_notMem
  refine ⟨h.numbered.malloc.malloc, Ledger.Accounts.store [s.malloc.fresh, s.fresh]
    (hreq.take h.numbered.malloc.fresh_notMem) (fun hok => ?_) (fun hno => ?_)⟩
  · rw [hok, if_pos rfl] at hvalues
    exact ((hvalues.flatMap_right freeRequest).append_left _).trans
      (List.perm_append_comm_assoc _ _ _)
  · simp only [held, Table.add_of_alloc_failed hno]
    rfl

theorem abandon (h : s.Tracks lost) :
    Tracks { s.malloc with ledger := s.malloc.ledger.free [s.fresh] } lost :=
  ⟨h.numbered.malloc, (h.accounts.take h.numbered.fresh_notMem).free (List.Perm.refl _)⟩

end Tracks

/-- After a step that loses nothing if and only if `ok` holds. -/
def Keeps (s : HeapSniffer) (lost : List Block) (ok : Prop) : Prop :=
  ∃ lost', s.Tracks lost' ∧ (lost' = [] ↔ lost = [] ∧ ok)

variable {s : HeapSniffer} {lost bs : List Block} {ok : Prop}

theorem Tracks.keeps (h : s.Tracks lost) (hok : ok) : s.Keeps lost ok :=
  ⟨lost, h, by simp [hok]⟩

theorem Tracks.keeps_iff {stored : Bool} (h : s.Tracks (if stored then lost else bs ++ lost))
    (hbs : bs ≠ []) (hok : ok ↔ stored = true) : s.Keeps lost ok := by
  refine ⟨_, h, ?_⟩
  cases stored with
  | true => simp [hok]
  | false => simp [hok, hbs]

theorem Tracks.keeps_register (h : s.Tracks lost) (a : Allocs) (e : Endpoint) :
    (registerEndpoint a s e).Keeps lost
      ((s.synTab.get (endpointKey e)).isSome = false ∧ a.stats = true →
        (a.entry && a.key) = true) := by
  by_cases hc : (s.synTab.get (endpointKey e)).isSome = false ∧ a.stats = true
  · exact (h.register a hc.1 hc.2).keeps_iff (List.cons_ne_nil _ _) (by simp [hc])
  · have hsame : registerEndpoint a s e = s := by
      rw [registerEndpoint]
      split
      · rfl
      · rename_i hg
        exact if_neg fun ha => hc ⟨Bool.eq_false_iff.mpr hg, ha⟩
    rw [hsame]
    exact h.keeps fun hh => absurd hh hc

theorem Tracks.keeps_request (h : s.Tracks lost) (a : Allocs) {p : UserPacket}
    (hr : p.payloadSize ≤ p.payload.length) :
    ∃ s', s.processRequestPacket a p = some s' ∧ s'.Keeps lost
      ((s.requests.get (pairKey p.src p.dst)).isSome = false ∧
        s.requests.size < maxPendingRequests ∧ a.request = true ∧ a.payload = true →
          (a.entry && a.key) = true) := by
  simp only [processRequestPacket]
  split
  · rename_i hg
    exact ⟨s, rfl, h.keeps fun hh => absurd hg (by simp [hh.1])⟩
  · rename_i hg
    rw [Bool.not_eq_true] at hg
    split
    · exact ⟨s, rfl, h.keeps fun hh => by omega⟩
    · split
      · rename_i ha
        exact ⟨s, rfl, h.keeps fun hh => by simp [hh.2.2.1] at ha⟩
      · rename_i hroom ha
        rw [formatPayload_eq hr]
        refine ⟨_, rfl, ?_⟩
        cases hp : a.payload with
        | false => exact h.abandon.keeps fun hh => by simp at hh
        | true =>
          refine (h.store a hg (p.request s.protocol)).keeps_iff (List.cons_ne_nil _ _) ?_
          have ha' : a.request = true := by simpa using ha
          have hroom' : s.requests.size < maxPendingRequests := by omega
          simp [hg, hroom', ha']

end HeapSniffer

namespace Sniffer

/-- A bare SYN for an endpoint that is not registered, with a block for its counters. -/
def Registers (s : Sniffer) (p : Packet) : Prop :=
  p.payloadSize = 0 ∧ p.syn = true ∧
    (s.synTab.get (endpointKey p.named)).isSome = false ∧ p.allocs.stats = true

/-- Payload from a client to a registered server that no request of the client is waiting
for, while there is room, with blocks for the record and its payload. -/
def Opens (s : Sniffer) (p : Packet) : Prop :=
  p.payloadSize ≠ 0 ∧ (s.synTab.get (endpointKey p.src)).isSome = false ∧
    (s.synTab.get (endpointKey p.dst)).isSome = true ∧
    ((expireStaleRequests s p.tv).requests.get (pairKey p.src p.dst)).isSome = false ∧
    (expireStaleRequests s p.tv).requests.size < maxPendingRequests ∧
    p.allocs.request = true ∧ p.allocs.payload = true

def ReachesAdd (s : Sniffer) (p : Packet) : Prop :=
  s.luaState = false ∧ s.protocol ≠ .raw ∧ (s.Registers p ∨ s.Opens p)

/-- Whenever a block is handed to `hashtable_add`, the table gets its entry and key. -/
def Adopts (s : Sniffer) (p : Packet) : Prop :=
  s.ReachesAdd p → (p.allocs.entry && p.allocs.key) = true

end Sniffer

namespace HeapSniffer

theorem Keeps.congr {s : HeapSniffer} {lost : List Block} {ok ok' : Prop} (h : s.Keeps lost ok)
    (hok : ok ↔ ok') : s.Keeps lost ok' := by
  rwa [Keeps, ← hok]

theorem synTab_expire (s : HeapSniffer) (now : Timeval) :
    (s.expireStaleRequests now).synTab = s.synTab := by
  rw [expireStaleRequests]
  split
  · rfl
  · split <;> rfl

theorem direction_cases (s : HeapSniffer) (p : UserPacket) :
    ((s.synTab.get (endpointKey p.src)).isSome = true ∧ (s.packetDirection p).2 = .response) ∨
    ((s.synTab.get (endpointKey p.src)).isSome = false ∧
      (s.synTab.get (endpointKey p.dst)).isSome = true ∧ (s.packetDirection p).2 = .request ∧
      (s.packetDirection p).1.requests = s.requests) ∨
    ((s.synTab.get (endpointKey p.dst)).isSome = false ∧ (s.packetDirection p).2 = .unknown) := by
  rw [packetDirection]
  cases hs : (s.synTab.get (endpointKey p.src)).isSome with
  | true => exact Or.inl ⟨rfl, rfl⟩
  | false =>
    cases hd : (s.synTab.get (endpointKey p.dst)).isSome with
    | true => exact Or.inr (Or.inl ⟨rfl, rfl, rfl, rfl⟩)
    | false => exact Or.inr (Or.inr ⟨rfl, rfl⟩)

theorem Tracks.keeps_opening {s : HeapSniffer} {lost : List Block} (h : s.Tracks lost) {p : Packet}
    (h0 : p.payloadSize = 0) (hflag : p.syn = true) :
    (registerEndpoint p.allocs (s.expireStaleRequests p.tv) p.named).Keeps lost
      (s.toSniffer.Registers p ∨ s.toSniffer.Opens p →
        (p.allocs.entry && p.allocs.key) = true) := by
  refine ((h.expire p.tv).keeps_register p.allocs p.named).congr ?_
  simp only [Sniffer.Registers, Sniffer.Opens, h0, hflag, synTab_expire, isSome_synTab, ne_eq,
    not_true_eq_false, false_and, or_false, true_and]

theorem Tracks.keeps_data {s : HeapSniffer} {lost : List Block} (h : s.Tracks lost) {p : Packet}
    (h0 : p.payloadSize ≠ 0) {r : HeapSniffer × List Event}
    (hrun : processDirected p.allocs (s.expireStaleRequests p.tv) p.toUserPacket = some r) :
    r.1.Keeps lost (s.toSniffer.Registers p ∨ s.toSniffer.Opens p →
      (p.allocs.entry && p.allocs.key) = true) := by
  have hdirected := (h.expire p.tv).direction p.toUserPacket
  have hsyn := s.synTab_expire p.tv
  have hopens (hh : s.toSniffer.Registers p ∨ s.toSniffer.Opens p) : s.toSniffer.Opens p :=
    hh.resolve_left fun hreg => h0 hreg.1
  rw [processDirected] at hrun
  rcases direction_cases (s.expireStaleRequests p.tv) p.toUserPacket with
    ⟨hs, hd⟩ | ⟨hs, hdst, hd, hsame⟩ | ⟨hdst, hd⟩
  · simp only [hd, Option.some.injEq] at hrun
    rw [← hrun]
    refine (hdirected.response _).keeps fun hh => ?_
    rw [hsyn, ← isSome_synTab, (hopens hh).2.1] at hs
    cases hs
  · simp only [hd] at hrun
    obtain ⟨t, ht, hkeeps⟩ := hdirected.keeps_request p.allocs p.readable
    rw [ht, Option.map_some, Option.some.injEq] at hrun
    rw [← hrun]
    refine hkeeps.congr ?_
    simp only [Sniffer.Registers, Sniffer.Opens, h0, hsame, isSome_synTab, ← hsyn, hs, hdst, ne_eq,
      not_false_eq_true, false_and, false_or, true_and, ← toSniffer_expire, isSome_requests]
    exact Iff.rfl
  · simp only [hd, Option.some.injEq] at hrun
    rw [← hrun]
    refine hdirected.keeps fun hh => ?_
    rw [hsyn, ← isSome_synTab, (hopens hh).2.2.1] at hdst
    cases hdst

theorem Tracks.process {s : HeapSniffer} {lost : List Block} (h : s.Tracks lost) (p : Packet) :
    (s.process p).1.Keeps lost (s.toSniffer.Adopts p) := by
  have hrun := s.processUserPacket_eq_process p
  have hlua : s.toSniffer.luaState = s.luaState := rfl
  have hprotocol : s.toSniffer.protocol = s.protocol := rfl
  rw [processUserPacket] at hrun
  cases hscript : s.luaState with
  | true =>
    rw [if_pos hscript] at hrun
    rw [← Option.some.inj hrun]
    exact h.keeps fun hh => absurd hh.1 (by simp [hlua, hscript])
  | false =>
    rw [if_neg (Bool.eq_false_iff.mp hscript)] at hrun
    by_cases hraw : s.protocol = .raw
    · rw [if_pos hraw] at hrun
      rw [← Option.some.inj hrun]
      exact h.keeps fun hh => absurd (hprotocol.trans hraw) hh.2.1
    · have hreach : (s.toSniffer.Registers p ∨ s.toSniffer.Opens p →
          (p.allocs.entry && p.allocs.key) = true) ↔ s.toSniffer.Adopts p := by
        simp only [Sniffer.Adopts, Sniffer.ReachesAdd, hlua, hprotocol, hraw, ne_eq, hscript,
          not_false_eq_true, true_and]
      rw [if_neg hraw] at hrun
      by_cases h0 : p.payloadSize = 0
      · rw [if_pos h0] at hrun
        cases hflag : p.syn with
        | true =>
          rw [if_pos hflag] at hrun
          rw [← Option.some.inj hrun]
          exact (h.keeps_opening h0 hflag).congr hreach
        | false =>
          rw [if_neg (Bool.eq_false_iff.mp hflag)] at hrun
          rw [← Option.some.inj hrun]
          refine (h.expire p.tv).keeps (hreach.mp fun hh => ?_)
          rcases hh with hh | hh
          · exact absurd hh.2.1 (Bool.eq_false_iff.mp hflag)
          · exact absurd h0 hh.1
      · rw [if_neg h0] at hrun
        exact (h.keeps_data h0 hrun).congr hreach

end HeapSniffer

section Runs

variable (opts : Options) (datalink : LinkType) (packets : List Packet)

/-- The packets processed by a sniffer that was just created, in any of its modes. -/
def packetRun : Trace (fun s p => (Sniffer.process s p).1) :=
  Trace.ofList _ (snifferCreate opts datalink) packets

def heapRun : Trace (fun s p => (HeapSniffer.process s p).1) :=
  Trace.ofList _ (HeapSniffer.create opts datalink) packets

theorem heapRun_toSniffer (n : Nat) :
    ((heapRun opts datalink packets).state n).toSniffer = (packetRun opts datalink packets).state n := by
  simp only [heapRun, packetRun, Trace.ofList]
  rw [← HeapSniffer.toSniffer_create]
  exact (List.foldl_hom HeapSniffer.toSniffer fun s p => (s.toSniffer_process p).symm).symm

theorem heapRun_tracks {n : Nat} (hn : n ≤ packets.length) :
    ((heapRun opts datalink packets).state n).Keeps [] (∀ j : Fin packets.length, j < n →
      ((packetRun opts datalink packets).state j).Adopts (packets.get j)) := by
  refine (heapRun opts datalink packets).invariant (I := fun n s => s.Keeps []
    (∀ j : Fin packets.length, j < n →
      ((packetRun opts datalink packets).state j).Adopts (packets.get j))) ?_ (fun k h => ?_) n hn
  · exact (HeapSniffer.Tracks.create opts datalink).keeps fun j hj => absurd hj (Nat.not_lt_zero j)
  · obtain ⟨lost, htracks, hlost⟩ := h
    obtain ⟨lost', htracks', hlost'⟩ := htracks.process ((heapRun opts datalink packets).input k)
    refine ⟨lost', htracks', ?_⟩
    rw [hlost', hlost, heapRun_toSniffer]
    constructor
    · rintro ⟨⟨-, hbefore⟩, hnow⟩
      refine ⟨rfl, fun j hj => ?_⟩
      rcases Nat.lt_succ_iff_lt_or_eq.mp hj with hlt | heq
      · exact hbefore j hlt
      · rw [show j = k from Fin.ext heq]
        exact hnow
    · rintro ⟨-, hall⟩
      exact ⟨⟨rfl, fun j hj => hall j (by omega)⟩, hall k (Nat.lt_succ_self _)⟩

theorem heapRun_settled_iff {n : Nat} (hn : n ≤ packets.length) :
    ((heapRun opts datalink packets).state n).ledger.Settled
        ((heapRun opts datalink packets).state n).held ↔
      ∀ j : Fin packets.length, j < n →
        ((packetRun opts datalink packets).state j).Adopts (packets.get j) := by
  obtain ⟨lost, htracks, hlost⟩ := heapRun_tracks opts datalink packets hn
  rw [htracks.accounts.settled_iff, hlost]
  exact ⟨fun h => h.2, fun h => ⟨rfl, h⟩⟩

/-- After every packet each block allocated so far is in a table or was freed, and that
once, if and only if no packet of the run hands over a block that its table cannot adopt. -/
theorem blocks_settled_iff_adopted :
    (∀ n ≤ packets.length, ((heapRun opts datalink packets).state n).ledger.Settled
        ((heapRun opts datalink packets).state n).held) ↔
      ∀ j : Fin packets.length,
        ((packetRun opts datalink packets).state j).Adopts (packets.get j) := by
  constructor
  · intro h j
    exact (heapRun_settled_iff opts datalink packets le_rfl).mp (h _ le_rfl) j j.isLt
  · intro h n hn
    exact (heapRun_settled_iff opts datalink packets hn).mpr fun j _ => h j

end Runs

/-- A bare SYN from 10.0.0.1:40000 to 10.0.0.2:6379 while the entry of the table cannot
be allocated. -/
def unstoredSyn : Packet where
  flags := 0x02
  isTcp := true
  tv := ⟨1, 0⟩
  ipSrc := 0x0100000a
  ipDst := 0x0200000a
  portSrc := 40000
  portDst := 6379
  window := 0
  seq := 0
  ack := 0
  size := 40
  payloadSize := 0
  wirePayloadSize := 0
  payload := []
  nonneg := emptyPayload_readable
  readable := emptyPayload_readable
  allocs := ⟨true, true, true, false, true⟩

theorem unstoredSyn_loses_block :
    ¬((heapRun { protocol := .redis } .en10mb [unstoredSyn]).state 1).ledger.Settled
        ((heapRun { protocol := .redis } .en10mb [unstoredSyn]).state 1).held := by
  intro hsettled
  have hadopts := (heapRun_settled_iff _ _ [unstoredSyn] le_rfl).mp hsettled 0 Nat.one_pos
  have hreach : (snifferCreate { protocol := .redis } .en10mb).ReachesAdd unstoredSyn :=
    ⟨rfl, by decide, Or.inl ⟨rfl, rfl, rfl, rfl⟩⟩
  exact absurd (hadopts hreach) (by decide)

end Tcpkit
