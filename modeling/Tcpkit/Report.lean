import Tcpkit.Coherence
import Tcpkit.Counting
import Tcpkit.HashtableRuns

/-! The JSON report of the statistics server: `server_stats_to_json` and
`create_stats_object`. Members and items are appended in the order of the calls. -/

namespace Tcpkit

open MachineInt

inductive Json where
  | number (value : Nat)
  | array (items : List Json)
  | object (members : List (CString × Json))

/-- The conversion of an unsigned 64-bit integer to a double: exact with up to 53
significant bits, to the nearest with ties to even beyond them. -/
def toDouble (n : Nat) : Nat :=
  if n < 2 ^ 53 then n
  else
    let ulp := 2 ^ (Nat.log2 n - 52)
    let q := n / ulp
    let up := 2 * (n % ulp) > ulp ∨ 2 * (n % ulp) = ulp ∧ q % 2 = 1
    (if up then q + 1 else q) * ulp

def bucketName (i : Fin 18) : CString := CString.literal (latencyBuckets.get i).2

def latencyLoop (stats : QueryStats) : List (Fin 18) → List Json → List Json
  | [], items => items
  | i :: is, items =>
    if stats.buckets i ≠ 0 then
      latencyLoop stats is
        (items ++ [.object [(bucketName i, .number (toDouble (stats.buckets i)))]])
    else latencyLoop stats is items

def createStatsObject (stats : QueryStats) : Json :=
  .object [
    (CString.literal "requests", .number (toDouble stats.requests)),
    (CString.literal "request_bytes", .number (toDouble stats.requestBytes)),
    (CString.literal "responses", .number (toDouble stats.responses)),
    (CString.literal "response_bytes", .number (toDouble stats.responseBytes)),
    (CString.literal "latency", .array (latencyLoop stats (List.finRange 18) []))]

theorem dot_ne_nul : (0x2e : UInt8) ≠ 0 := by decide

theorem colon_ne_nul : (0x3a : UInt8) ≠ 0 := by decide

/-- `inet_ntoa`: the four bytes of the address in the order they have in memory. -/
def inetNtoa (ip : UInt32) : CString :=
  CString.joined 0x2e dot_ne_nul (CString.decimal (ip.toNat % 256))
    (CString.joined 0x2e dot_ne_nul (CString.decimal (ip.toNat / 2 ^ 8 % 256))
      (CString.joined 0x2e dot_ne_nul (CString.decimal (ip.toNat / 2 ^ 16 % 256))
        (CString.decimal (ip.toNat / 2 ^ 24 % 256))))

def endpointName (e : Endpoint) : CString :=
  CString.joined 0x3a colon_ne_nul (inetNtoa e.ip) (CString.decimal e.port.toNat)

def memberName (e : Endpoint) : CString := CString.snprintf 64 (endpointName e)

/-- `n` passes of the loop over the values from index `i` on. -/
def membersLoop (values : List QueryStats) : Nat → Nat → List (CString × Json) →
    Access (List (CString × Json))
  | 0, _, members => some members
  | n + 1, i, members => values[i]?.bind fun stats =>
    membersLoop values n (i + 1) (members ++ [(memberName stats.endpoint, createStatsObject stats)])

/-- The object as it is where every allocation is granted. -/
def serverStatsToJson (s : Sniffer) : Access Json :=
  (hashtableValues (fun _ => true) s.synTab.toHashtable).bind fun r =>
    (membersLoop r.1 r.2.toNat 0 []).map Json.object

/-- What the object of an endpoint should say: its counters, and its non-empty buckets in
increasing order. -/
def statsReport (stats : QueryStats) : Json :=
  .object [
    (CString.literal "requests", .number stats.requests),
    (CString.literal "request_bytes", .number stats.requestBytes),
    (CString.literal "responses", .number stats.responses),
    (CString.literal "response_bytes", .number stats.responseBytes),
    (CString.literal "latency", .array (((List.finRange 18).filter (fun i => stats.buckets i ≠ 0)).map
      (fun i => .object [(bucketName i, .number (stats.buckets i))])))]

structure QueryStats.Exact (stats : QueryStats) : Prop where
  requests : stats.requests < 2 ^ 53
  requestBytes : stats.requestBytes < 2 ^ 53
  responses : stats.responses < 2 ^ 53
  responseBytes : stats.responseBytes < 2 ^ 53
  buckets : ∀ i, stats.buckets i < 2 ^ 53

theorem toDouble_of_lt {n : Nat} (h : n < 2 ^ 53) : toDouble n = n := if_pos h

theorem latencyLoop_eq {stats : QueryStats} (h : stats.Exact) (is : List (Fin 18)) (items : List Json) :
    latencyLoop stats is items = items ++ (is.filter (fun i => stats.buckets i ≠ 0)).map
      (fun i => .object [(bucketName i, .number (stats.buckets i))]) := by
  induction is generalizing items with
  | nil => simp [latencyLoop]
  | cons i is ih =>
    rw [latencyLoop]
    by_cases hi : stats.buckets i ≠ 0
    · rw [if_pos hi, ih, List.filter_cons_of_pos (by simpa using hi), toDouble_of_lt (h.buckets i)]
      simp
    · rw [if_neg hi, ih, List.filter_cons_of_neg (by simpa using hi)]

theorem createStatsObject_eq {stats : QueryStats} (h : stats.Exact) :
    createStatsObject stats = statsReport stats := by
  rw [createStatsObject, statsReport, toDouble_of_lt h.requests, toDouble_of_lt h.requestBytes,
    toDouble_of_lt h.responses, toDouble_of_lt h.responseBytes, latencyLoop_eq h, List.nil_append]

theorem dot_notMem_decimal (n : Nat) : (0x2e : UInt8) ∉ (CString.decimal n).bytes :=
  notMem_decimal (by decide) n

theorem inetNtoa_injective : Function.Injective inetNtoa := by
  intro ip ip' h
  have hd := dot_notMem_decimal
  obtain ⟨h0, h⟩ := CString.joined_inj_left (hd _) (hd _) h
  obtain ⟨h1, h⟩ := CString.joined_inj_left (hd _) (hd _) h
  obtain ⟨h2, h3⟩ := CString.joined_inj_left (hd _) (hd _) h
  have e0 := CString.decimal_injective h0
  have e1 := CString.decimal_injective h1
  have e2 := CString.decimal_injective h2
  have e3 := CString.decimal_injective h3
  have hlt := ip.toNat_lt
  have hlt' := ip'.toNat_lt
  exact UInt32.toNat_inj.mp (by omega)

theorem colon_notMem_inetNtoa (ip : UInt32) : (0x3a : UInt8) ∉ (inetNtoa ip).bytes := by
  have hd (n : Nat) : (0x3a : UInt8) ∉ (CString.decimal n).bytes := notMem_decimal (by decide) n
  simp only [inetNtoa, CString.joined_bytes, List.mem_append, List.mem_cons, not_or]
  exact ⟨hd _, by decide, hd _, by decide, hd _, by decide, hd _⟩

theorem endpointName_injective : Function.Injective endpointName := by
  intro e e' h
  obtain ⟨hip, hport⟩ :=
    CString.joined_inj_left (colon_notMem_inetNtoa e.ip) (colon_notMem_inetNtoa e'.ip) h
  have hp := UInt16.toNat_inj.mp (CString.decimal_injective hport)
  cases e
  cases e'
  rw [Endpoint.mk.injEq]
  exact ⟨inetNtoa_injective hip, hp⟩

theorem memberName_eq (e : Endpoint) : memberName e = endpointName e := by
  have hbyte (n : Nat) : (CString.decimal (n % 256)).strlen ≤ 3 :=
    CString.strlen_decimal_le (by decide) ((Nat.mod_lt n (by decide)).trans (by decide))
  have hport : (CString.decimal e.port.toNat).strlen ≤ 5 :=
    CString.strlen_decimal_le (by decide) (e.port.toNat_lt.trans (by decide))
  apply CString.snprintf_eq_self
  have h0 := hbyte e.ip.toNat
  have h1 := hbyte (e.ip.toNat / 2 ^ 8)
  have h2 := hbyte (e.ip.toNat / 2 ^ 16)
  have h3 := hbyte (e.ip.toNat / 2 ^ 24)
  rw [endpointName, CString.strlen_joined, inetNtoa, CString.strlen_joined, CString.strlen_joined,
    CString.strlen_joined]
  omega

theorem membersLoop_eq (values : List QueryStats) (n i : Nat) (members : List (CString × Json))
    (h : i + n ≤ values.length) :
    membersLoop values n i members = some (members ++ ((values.drop i).take n).map
      (fun stats => (endpointName stats.endpoint, createStatsObject stats))) := by
  induction n generalizing i members with
  | zero => simp [membersLoop]
  | succ n ih =>
    have hi : i < values.length := by omega
    rw [membersLoop, List.getElem?_eq_getElem hi, Option.bind_some, ih _ _ (by omega),
      List.drop_eq_getElem_cons hi, List.take_succ_cons, List.map_cons, memberName_eq,
      List.append_assoc, List.singleton_append]

/-- The report has a member for each of the first `2 ^ 30` endpoints of the table. -/
theorem serverStatsToJson_eq (s : Sniffer) :
    serverStatsToJson s = some (.object ((s.synTab.entries.take (2 ^ 30)).map
      (fun e => (endpointName e.value.endpoint, createStatsObject e.value)))) := by
  have hcnt : ((s.synTab.entries.take (2 ^ 30)).length : Int).toNat =
      ((s.synTab.entries.take (2 ^ 30)).map Entry.value).length := by
    rw [List.length_map, Int.toNat_natCast]
  rw [serverStatsToJson, hashtableValues_eq, Option.bind_some]
  simp only [hcnt]
  rw [membersLoop_eq _ _ _ _ (by omega), List.drop_zero, List.take_length, List.nil_append,
    List.map_map]
  rfl

/-- The state of a sniffer that was created with any options and processed any packets. -/
def Sniffer.after (opts : Options) (datalink : LinkType) (packets : List Packet) : Sniffer :=
  packets.foldl (fun s p => (s.process p).1) (snifferCreate opts datalink)

theorem Capture.after_eq (r : Capture) :
    Sniffer.after r.opts r.datalink r.packets = r.before r.packets.length := by
  rw [Sniffer.after, before, trace]
  simp only [Trace.ofList, List.take_length]

theorem Sniffer.process_idle {s : Sniffer} (h : s.luaState = true ∨ s.protocol = .raw) (p : Packet) :
    (s.process p).1 = s := by
  have hrun := processUserPacket_eq_process s p
  rw [processUserPacket_idle h] at hrun
  rw [← Option.some.inj hrun]

theorem Sniffer.after_idle {opts : Options} (h : opts.script.isSome ∨ opts.protocol = .raw)
    (datalink : LinkType) (packets : List Packet) :
    Sniffer.after opts datalink packets = snifferCreate opts datalink := by
  rw [Sniffer.after]
  induction packets with
  | nil => rfl
  | cons p packets ih => rw [List.foldl_cons, process_idle h, ih]

/-- In every reachable state a key of `syn_tab` names the endpoint of its counters. -/
theorem Sniffer.get_after {opts : Options} {datalink : LinkType} {packets : List Packet}
    {key : CString} {stats : QueryStats}
    (h : (Sniffer.after opts datalink packets).synTab.get key = some stats) :
    key = endpointKey stats.endpoint := by
  by_cases hidle : opts.script.isSome ∨ opts.protocol = .raw
  · rw [after_idle hidle, ← Table.lookup_toMap] at h
    simp [snifferCreate, Table.toMap_create] at h
  · rw [not_or, Option.not_isSome_iff_eq_none] at hidle
    let r : Capture := ⟨opts, datalink, packets, hidle.1, hidle.2⟩
    have hr : Sniffer.after opts datalink packets = r.before packets.length := r.after_eq
    rw [hr] at h
    exact (r.monitoring (Nat.le_refl _)).get_endpoint (r.linked (Nat.le_refl _)) h

/-- In every reachable state with at most `2 ^ 30` registered endpoints the report has one
member for each of them and no other, under the name of the endpoint, with its counters. -/
theorem report_lists_endpoints (opts : Options) (datalink : LinkType) (packets : List Packet)
    (hfew : (Sniffer.after opts datalink packets).synTab.entries.length ≤ 2 ^ 30) :
    ∃ members,
      serverStatsToJson (Sniffer.after opts datalink packets) = some (.object members) ∧
      members.length = (Sniffer.after opts datalink packets).synTab.entries.length ∧
      (members.map Prod.fst).Nodup ∧
      (∀ name json, (name, json) ∈ members ↔ ∃ e stats,
        (Sniffer.after opts datalink packets).synTab.get (endpointKey e) = some stats ∧
          name = endpointName e ∧ json = createStatsObject stats) ∧
      ∀ stats : QueryStats, stats.Exact → createStatsObject stats = statsReport stats := by
  generalize hs : Sniffer.after opts datalink packets = s at hfew
  have hnamed {key : CString} {stats : QueryStats} (h : s.synTab.get key = some stats) :
      key = endpointKey stats.endpoint := by
    rw [← hs] at h
    exact Sniffer.get_after h
  have hget (e : Entry QueryStats) : e ∈ s.synTab.entries ↔ s.synTab.get e.key = some e.value :=
    s.synTab.wellFormed.chained.get_eq_some_iff.symm
  have hjson := serverStatsToJson_eq s
  rw [List.take_of_length_le hfew] at hjson
  refine ⟨_, hjson, by rw [List.length_map], ?_, fun name json => ?_,
    fun stats h => createStatsObject_eq h⟩
  · have hkeys : (s.synTab.entries.map Entry.key).Nodup := s.synTab.wellFormed.chained.keys_nodup
    rw [List.map_map, List.Nodup, List.pairwise_map]
    rw [List.Nodup, List.pairwise_map] at hkeys
    refine hkeys.imp_of_mem fun {e e'} he he' hne hname => hne ?_
    rw [hnamed ((hget e).mp he), hnamed ((hget e').mp he'), endpointName_injective hname]
  · rw [List.mem_map]
    constructor
    · intro hh
      rcases hh with ⟨e, he, hpair⟩
      rw [Prod.mk.injEq] at hpair
      have hg := (hget e).mp he
      rw [hnamed hg] at hg
      exact ⟨e.value.endpoint, e.value, hg, hpair.1.symm, hpair.2.symm⟩
    · intro hh
      rcases hh with ⟨e, stats, hg, rfl, rfl⟩
      have he : e = stats.endpoint := endpointKey_injective (hnamed hg)
      exact ⟨⟨endpointKey e, stats⟩, (hget _).mpr hg, by rw [he]⟩

theorem report_lists_endpoints_ping :
    (Sniffer.after pingCapture.opts pingCapture.datalink pingCapture.packets).synTab.entries.length =
      1 ∧
    ∃ members, serverStatsToJson (Sniffer.after pingCapture.opts pingCapture.datalink
      pingCapture.packets) = some (.object members) ∧ members.length = 1 := by
  have hone : (Sniffer.after pingCapture.opts pingCapture.datalink
      pingCapture.packets).synTab.entries.length = 1 := by decide +kernel
  obtain ⟨members, hjson, hlen, -⟩ := report_lists_endpoints pingCapture.opts pingCapture.datalink
    pingCapture.packets (by omega)
  exact ⟨hone, members, hjson, hlen.trans hone⟩

section Flood

/-- A bare SYN to port 80 of the address with the given number. -/
def synTo (i : Nat) : Packet where
  flags := 0x02
  isTcp := true
  tv := ⟨0, 0⟩
  ipSrc := 1
  ipDst := UInt32.ofNat i
  portSrc := 1000
  portDst := 80
  window := 0
  seq := 0
  ack := 0
  size := 60
  payloadSize := 0
  wirePayloadSize := 0
  payload := []
  nonneg := emptyPayload_readable
  readable := emptyPayload_readable
  allocs := Allocs.all

def flood (n : Nat) : Capture where
  opts := redisOptions
  datalink := .raw
  packets := (List.range n).map synTo
  noScript := redisOptions_noScript
  notRaw := redisOptions_notRaw

variable {n : Nat}

theorem flood_length : (flood n).packets.length = n := by
  simp [flood]

theorem flood_packet (j : Fin (flood n).packets.length) : (flood n).packet j = synTo j := by
  rw [Capture.packet, List.get_eq_getElem]
  simp [flood]

theorem flood_allocates : (flood n).Allocates := by
  intro j
  rw [flood_packet]
  rfl

theorem flood_opens (j : Fin (flood n).packets.length) (e : Endpoint) :
    (flood n).Opens j e ↔ (⟨UInt32.ofNat j, 80⟩ : Endpoint) = e := by
  have hflags : (synTo j).flags = 0x02 := rfl
  have hsyn : (synTo j).syn = true := by
    rw [UserPacket.syn, hflags]
    decide
  have hnamed : (synTo j).named = ⟨UInt32.ofNat j, 80⟩ := by
    rw [UserPacket.named, hflags, if_neg (by decide)]
    rfl
  rw [Capture.Opens, flood_packet, hsyn, hnamed]
  exact ⟨fun h => h.2.2, fun h => ⟨rfl, rfl, h⟩⟩

theorem flood_registered :
    ((flood n).before (flood n).packets.length).toMonitor.stats.keys =
      (Finset.range n).image (fun i => (⟨UInt32.ofNat i, 80⟩ : Endpoint)) := by
  ext e
  rw [Finmap.mem_keys_iff_isSome, ← Monitor.Registered,
    Capture.registered_iff_known flood_allocates (Nat.le_refl _), Capture.Known, Finset.mem_image]
  constructor
  · intro hh
    rcases hh with ⟨j, hj, ho⟩
    exact ⟨j, Finset.mem_range.mpr (hj.trans_eq flood_length), (flood_opens j e).mp ho⟩
  · intro hh
    rcases hh with ⟨i, hi, he⟩
    have hi' : i < (flood n).packets.length := by rwa [flood_length, ← Finset.mem_range]
    exact ⟨⟨i, hi'⟩, hi', (flood_opens ⟨i, hi'⟩ e).mpr he⟩

theorem flood_entries (h : n ≤ 2 ^ 32) :
    ((flood n).before (flood n).packets.length).synTab.entries.length = n := by
  have hinj : Set.InjOn (fun i : Nat => (⟨UInt32.ofNat i, 80⟩ : Endpoint)) (Finset.range n) := by
    intro i hi i' hi' he
    have hip := congrArg (fun e : Endpoint => e.ip.toNat) he
    simp only [Finset.coe_range, Set.mem_Iio, UInt32.toNat_ofNat'] at hi hi' hip
    omega
  have hcard := Finmap.card_comap endpointKey_injective id
    ((flood n).before (flood n).packets.length).synTab.toMap ((flood n).monitoring (Nat.le_refl _)).synKeys
  have hkeys := congrArg Finset.card (flood_registered (n := n))
  rw [Finset.card_image_of_injOn hinj, Finset.card_range] at hkeys
  rw [← Hashtable.card_toMap ((flood n).before (flood n).packets.length).synTab.wellFormed.chained]
  exact hcard.symm.trans hkeys

/-- With one endpoint more the doubled capacity is `-2 ^ 31`, the allocation is refused and the last
endpoint of the table is left out. -/
theorem flood_report_incomplete :
    (Sniffer.after (flood (2 ^ 30 + 1)).opts (flood (2 ^ 30 + 1)).datalink
        (flood (2 ^ 30 + 1)).packets).synTab.entries.length = 2 ^ 30 + 1 ∧
      ∃ members, serverStatsToJson (Sniffer.after (flood (2 ^ 30 + 1)).opts (flood (2 ^ 30 + 1)).datalink
        (flood (2 ^ 30 + 1)).packets) = some (.object members) ∧ members.length = 2 ^ 30 := by
  have hlen := flood_entries (n := 2 ^ 30 + 1) (by omega)
  rw [Capture.after_eq]
  refine ⟨hlen, _, serverStatsToJson_eq _, ?_⟩
  rw [List.length_map, List.length_take, hlen]
  rfl

end Flood

end Tcpkit
