import Tcpkit.JsonRoundTrip

/-! The report of the sniffer as a text: read back by the parser it names every endpoint with its
counters. -/

namespace Tcpkit

open MachineInt

mutual

def Json.item : Json → JsonItem Nat
  | .number value => .number value
  | .array items => .array (itemElements items)
  | .object members => .object (itemMembers members)

def itemElements : List Json → List (JsonItem Nat)
  | [] => []
  | json :: items => json.item :: itemElements items

def itemMembers : List (CString × Json) → List (CString × JsonItem Nat)
  | [] => []
  | (key, json) :: members => (key, json.item) :: itemMembers members

end

section Words

/-- The counters are unsigned 64-bit words. -/
structure QueryStats.Words (stats : QueryStats) : Prop where
  requests : stats.requests < 2 ^ 64
  requestBytes : stats.requestBytes < 2 ^ 64
  responses : stats.responses < 2 ^ 64
  responseBytes : stats.responseBytes < 2 ^ 64
  buckets : ∀ i, stats.buckets i < 2 ^ 64

theorem uint64_lt (x : Int) : uint64 x < 2 ^ 64 := by
  unfold uint64
  omega

namespace QueryStats.Words

variable {stats : QueryStats}

theorem zeroed (e : Endpoint) : (QueryStats.zeroed e).Words :=
  ⟨Nat.two_pow_pos 64, Nat.two_pow_pos 64, Nat.two_pow_pos 64, Nat.two_pow_pos 64,
    fun _ => Nat.two_pow_pos 64⟩

theorem incr (h : stats.Words) (isRequest : Bool) (bytes : Int) :
    (statsIncr stats isRequest bytes).Words := by
  cases isRequest with
  | true =>
    have hrequests : (statsIncr stats true bytes).requests = uint64 (stats.requests + 1) := rfl
    have hbytes : (statsIncr stats true bytes).requestBytes = uint64 (stats.requestBytes + bytes) := rfl
    exact ⟨hrequests ▸ uint64_lt _, hbytes ▸ uint64_lt _, h.responses, h.responseBytes, h.buckets⟩
  | false =>
    have hresponses : (statsIncr stats false bytes).responses = uint64 (stats.responses + 1) := rfl
    have hbytes : (statsIncr stats false bytes).responseBytes = uint64 (stats.responseBytes + bytes) := rfl
    exact ⟨h.requests, h.requestBytes, hresponses ▸ uint64_lt _, hbytes ▸ uint64_lt _, h.buckets⟩

theorem observer (h : stats.Words) (latency : Int) : (statsObserverLatency stats latency).Words := by
  refine { h with buckets := fun i => ?_ }
  by_cases hi : i = latencyBucket latency
  · subst hi
    exact (congrArg (· < 2 ^ 64) (Function.update_self _ _ _)).mpr (uint64_lt _)
  · exact (congrArg (· < 2 ^ 64) (Function.update_of_ne hi _ _)).mpr (h.buckets i)

end QueryStats.Words

def Monitor.Words (m : Monitor) : Prop := ∀ e stats, m.stats.lookup e = some stats → stats.Words

theorem Monitor.Words.next {m : Monitor} (h : m.Words) (a : Arrival) : (m.next a).Words := by
  intro e stats hl
  cases ha : a.signal with
  | silent =>
    rw [Monitor.lookup_stats_silent ha] at hl
    exact h e stats hl
  | opening server =>
    rw [Monitor.lookup_stats_opening ha] at hl
    split_ifs at hl with he
    · cases hm : m.stats.lookup e with
      | none =>
        rw [hm] at hl
        cases hl
        exact QueryStats.Words.zeroed server
      | some old =>
        rw [hm] at hl
        cases hl
        exact h e _ hm
    · exact h e stats hl
  | data src dst size =>
    obtain ⟨f, hlook, hf⟩ := Monitor.lookup_stats_data (m := m) ha
    rw [hlook] at hl
    split_ifs at hl with he
    · obtain ⟨old, hold, rfl⟩ := Option.map_eq_some_iff.mp hl
      have hw := h e old hold
      rcases hf with hf | ⟨latency, hf⟩
      · rw [hf]
        exact hw.incr _ _
      · rw [hf]
        exact (hw.incr _ _).observer latency
    · exact h e stats hl

theorem Capture.words (r : Capture) {n : Nat} (hn : n ≤ r.packets.length) : (r.before n).toMonitor.Words := by
  refine r.monitor.invariant (I := fun _ m => m.Words) ?_ (fun k h => h.next _) n hn
  rw [r.monitor_start]
  intro e stats h
  simp [Monitor.start] at h

/-- In every reachable state the counters of a registered endpoint are 64-bit words. -/
theorem Sniffer.words_after {opts : Options} {datalink : LinkType} {packets : List Packet} {key : CString}
    {stats : QueryStats} (h : (Sniffer.after opts datalink packets).synTab.get key = some stats) :
    stats.Words := by
  by_cases hidle : opts.script.isSome ∨ opts.protocol = .raw
  · rw [after_idle hidle, ← Table.lookup_toMap] at h
    simp [snifferCreate, Table.toMap_create] at h
  · have hkey := Sniffer.get_after h
    rw [not_or, Option.not_isSome_iff_eq_none] at hidle
    let r : Capture := ⟨opts, datalink, packets, hidle.1, hidle.2⟩
    have hr : Sniffer.after opts datalink packets = r.before packets.length := r.after_eq
    rw [hr] at h
    refine r.words (Nat.le_refl _) stats.endpoint stats ?_
    rw [Sniffer.lookup_stats, ← hkey]
    exact h

end Words

section Doubles

open DecimalText

variable {n : Nat}

/-- Rounding once is enough. -/
theorem toDouble_idem (n : Nat) : toDouble (toDouble n) = toDouble n := by
  rcases lt_or_ge n (2 ^ 53) with h | h
  · rw [toDouble_of_lt h, toDouble_of_lt h]
  have hlog : 53 ≤ Nat.log2 n := (Nat.le_log2 (by omega)).mpr h
  have hpos : 0 < 2 ^ (Nat.log2 n - 52) := Nat.two_pow_pos _
  have hlo : 2 ^ 52 * 2 ^ (Nat.log2 n - 52) ≤ n := by
    rw [← pow_add, show 52 + (Nat.log2 n - 52) = Nat.log2 n by omega]
    exact Nat.log2_self_le (by omega)
  have hhi : n < 2 ^ 53 * 2 ^ (Nat.log2 n - 52) := by
    rw [← pow_add, show 53 + (Nat.log2 n - 52) = Nat.log2 n + 1 by omega]
    exact Nat.lt_log2_self
  have hge := le_roundDiv hpos hlo
  have hle := roundDiv_le_of_lt hpos hhi
  rw [toDouble_of_le h]
  generalize roundDiv n (2 ^ (Nat.log2 n - 52)) = a at hge hle ⊢
  have hbig : 2 ^ 53 ≤ a * 2 ^ (Nat.log2 n - 52) := by
    have htwo : 2 ^ 1 ≤ 2 ^ (Nat.log2 n - 52) := Nat.pow_le_pow_right (by decide) (by omega)
    have := Nat.mul_le_mul hge htwo
    omega
  rcases Nat.lt_or_ge a (2 ^ 53) with ha | ha
  · exact toDouble_of_near hge ha hbig (by omega) (by omega) (by omega)
  · -- the carry into one bit more
    have hcarry : a * 2 ^ (Nat.log2 n - 52) = 2 ^ 52 * 2 ^ (Nat.log2 n - 52 + 1) := by
      rw [le_antisymm hle ha, pow_succ]
      ring
    rw [hcarry] at hbig ⊢
    exact toDouble_of_near (le_refl _) (by decide) hbig (by omega) (by omega) (by omega)

theorem toDouble_le (h : n < 2 ^ 64) : toDouble n ≤ 2 ^ 64 := by
  rcases lt_or_ge n (2 ^ 53) with hn | hn
  · rw [toDouble_of_lt hn]
    omega
  have hlog : Nat.log2 n < 64 := (Nat.log2_lt (by omega)).mpr h
  have hhi : n < 2 ^ (64 - (Nat.log2 n - 52)) * 2 ^ (Nat.log2 n - 52) := by
    rw [← pow_add, show 64 - (Nat.log2 n - 52) + (Nat.log2 n - 52) = 64 by omega]
    exact h
  rw [toDouble_of_le hn]
  refine (Nat.mul_le_mul_right _ (roundDiv_le_of_lt (Nat.two_pow_pos _) hhi)).trans ?_
  rw [← pow_add, show 64 - (Nat.log2 n - 52) + (Nat.log2 n - 52) = 64 by omega]

theorem pow_lt_limit {k : Nat} (h : 65 ≤ k) : 2 ^ 64 < 2 ^ k := Nat.pow_lt_pow_right (by decide) h

theorem readable_counter (k : Nat) (h : n < 2 ^ 64) : (JsonItem.number (toDouble n)).Readable k := by
  rw [JsonItem.Readable]
  exact ⟨toDouble_idem n, (toDouble_le h).trans_lt (pow_lt_limit (by decide))⟩

end Doubles

section Reports

variable {stats : QueryStats}

theorem readable_latencyLoop (h : stats.Words) (k : Nat) (is : List (Fin 18)) (items : List Json)
    (hitems : ReadableElements (k + 1) (itemElements items)) :
    ReadableElements (k + 1) (itemElements (latencyLoop stats is items)) := by
  induction is generalizing items with
  | nil => exact hitems
  | cons i is ih =>
    rw [latencyLoop]
    split_ifs
    · refine ih _ ?_
      induction items with
      | nil => exact ⟨⟨readable_counter k (h.buckets i), trivial⟩, trivial⟩
      | cons json items ih' => exact ⟨hitems.1, ih' hitems.2⟩
    · exact ih _ hitems

theorem readable_stats (h : stats.Words) (k : Nat) : (createStatsObject stats).item.Readable (k + 3) := by
  refine ⟨readable_counter (k + 2) h.requests, readable_counter (k + 2) h.requestBytes,
    readable_counter (k + 2) h.responses, readable_counter (k + 2) h.responseBytes, ?_, trivial⟩
  exact readable_latencyLoop h k (List.finRange 18) [] trivial

theorem itemMembers_map {α : Type} (name : α → CString) (json : α → Json) (l : List α) :
    itemMembers (l.map fun a => (name a, json a)) = l.map fun a => (name a, (json a).item) := by
  induction l with
  | nil => rfl
  | cons a l ih => rw [List.map_cons, itemMembers, ih, List.map_cons]

theorem mapMembers_map {α : Type} (name : α → CString) (item : α → JsonItem Nat) (l : List α) :
    mapMembers (fun v : Nat => Binary64.Double.finite v) (l.map fun a => (name a, item a)) =
      l.map fun a => (name a, (item a).parsed) := by
  induction l with
  | nil => rfl
  | cons a l ih => rw [List.map_cons, mapMembers, ih, List.map_cons, JsonItem.parsed]

theorem readableMembers_map {α : Type} {name : α → CString} {item : α → JsonItem Nat} {l : List α}
    {n : Nat} (h : ∀ a ∈ l, (item a).Readable n) :
    ReadableMembers n (l.map fun a => (name a, item a)) := by
  induction l with
  | nil => exact trivial
  | cons a l ih =>
    exact ⟨h a List.mem_cons_self, ih fun b hb => h b (List.mem_cons_of_mem a hb)⟩

/-- The report of a sniffer as an item: a member for each endpoint, in the order of the table. -/
def Sniffer.report (s : Sniffer) : JsonItem Nat :=
  .object (s.synTab.entries.map fun e => (endpointName e.value.endpoint, (createStatsObject e.value).item))

def parsedStats (stats : QueryStats) : ParsedItem := (createStatsObject stats).item.parsed

theorem report_readable {opts : Options} {datalink : LinkType} {packets : List Packet} :
    (Sniffer.after opts datalink packets).report.Readable nestingLimit := by
  refine readableMembers_map (n := 999) fun e he => ?_
  have hget := (Sniffer.after opts datalink packets).synTab.wellFormed.chained.get_eq_some_iff.mpr he
  exact readable_stats (Sniffer.words_after hget) 996

theorem cString_block (item : JsonItem Nat) (format : Bool) :
    cString (item.text format 0 ++ [0]) = item.print format :=
  CString.ext (takeWhile_ne_append (zero_notMem_text format item 0) (by simp))

/-- In every reachable state the text of the report is read back as an object with one member for each
registered endpoint and no other, under its name, with its counters as doubles. -/
theorem report_reads_back {opts : Options} {datalink : LinkType} {packets : List Packet} {s : Sniffer}
    (hs : Sniffer.after opts datalink packets = s) :
    ∃ members, cJsonParse (fun _ => true) (s.report.print true) = some (some (.object members)) ∧
      (members.map Prod.fst).Nodup ∧
      ∀ name item, (name, item) ∈ members ↔ ∃ e stats,
        s.synTab.get (endpointKey e) = some stats ∧ name = endpointName e ∧ item = parsedStats stats := by
  have hnamed {key : CString} {stats : QueryStats} (h : s.synTab.get key = some stats) :
      key = endpointKey stats.endpoint := by
    rw [← hs] at h
    exact Sniffer.get_after h
  have hget (e : Entry QueryStats) : e ∈ s.synTab.entries ↔ s.synTab.get e.key = some e.value :=
    s.synTab.wellFormed.chained.get_eq_some_iff.symm
  refine ⟨s.synTab.entries.map fun e => (endpointName e.value.endpoint, parsedStats e.value), ?_, ?_, ?_⟩
  · have hmap := mapMembers_map (fun e : Entry QueryStats => endpointName e.value.endpoint)
      (fun e => (createStatsObject e.value).item) s.synTab.entries
    have hback := parseWithOpts_print (fun _ => rfl) (hs ▸ report_readable : s.report.Readable nestingLimit)
      true false
    rw [cJsonParse, hback, Sniffer.report, JsonItem.parsed, JsonItem.map, hmap]
    rfl
  · have hkeys : (s.synTab.entries.map Entry.key).Nodup := s.synTab.wellFormed.chained.keys_nodup
    rw [List.map_map, List.Nodup, List.pairwise_map]
    rw [List.Nodup, List.pairwise_map] at hkeys
    refine hkeys.imp_of_mem fun {e e'} he he' hne hname => hne ?_
    rw [hnamed ((hget e).mp he), hnamed ((hget e').mp he'), endpointName_injective hname]
  · intro name item
    rw [List.mem_map]
    constructor
    · rintro ⟨e, he, hpair⟩
      have hg := (hget e).mp he
      rw [hnamed hg] at hg
      exact ⟨e.value.endpoint, e.value, hg, (congrArg Prod.fst hpair).symm, (congrArg Prod.snd hpair).symm⟩
    · rintro ⟨e, stats, hg, rfl, rfl⟩
      have he : e = stats.endpoint := endpointKey_injective (hnamed hg)
      exact ⟨⟨endpointKey e, stats⟩, (hget _).mpr hg, by rw [he]⟩

end Reports

end Tcpkit
