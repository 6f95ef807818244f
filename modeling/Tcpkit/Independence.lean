import Tcpkit.Footprint
import Tcpkit.Matching

/-! Packets between different endpoints do not interfere. After the sweep a packet
reads and changes only the counters of its two endpoints and the requests that
wait between them, so two packets with no endpoint in common commute. -/

namespace Tcpkit

open MachineInt

/-- The counters of one endpoint, or the request of one client that waits at one server. -/
inductive Cell where
  | server (e : Endpoint)
  | slot (client server : Endpoint)
  deriving DecidableEq

def Cell.Value : Cell → Type
  | .server _ => Option QueryStats
  | .slot _ _ => Option Request

/-- The contents of the two tables, without keys, chains and buckets. -/
abbrev Board := (c : Cell) → c.Value

namespace Board

def stats (v : Board) (e : Endpoint) : Option QueryStats := v (.server e)

def pending (v : Board) (client server : Endpoint) : Option Request := v (.slot client server)

def setStats (v : Board) (e : Endpoint) (x : Option QueryStats) : Board :=
  Function.update v (.server e) x

def setPending (v : Board) (client server : Endpoint) (x : Option Request) : Board :=
  Function.update v (.slot client server) x

def adjust (v : Board) (e : Endpoint) (f : QueryStats → QueryStats) : Board :=
  v.setStats e ((v.stats e).map f)

def register (v : Board) (e : Endpoint) : Board :=
  v.setStats e (some ((v.stats e).getD (QueryStats.zeroed e)))

def enter (v : Board) (client server : Endpoint) (req : Request) : Board :=
  v.setPending client server (some ((v.pending client server).getD req))

def answer (v : Board) (client server : Endpoint) (tv : Timeval) : Board × List (Endpoint × Int) :=
  match v.pending client server with
  | none => (v, [])
  | some req =>
    let delta := tvDeltaUs tv req.tv
    ((v.adjust server (fun stats => statsObserverLatency stats delta)).setPending client server none,
      [(server, delta)])

/-- What a packet does after the sweep, while there is room for its request. -/
def touch (protocol : ProtocolType) (p : Packet) (v : Board) : Board × List (Endpoint × Int) :=
  if p.payloadSize = 0 then
    (if p.syn && p.allocs.keepsEndpoint then v.register p.named else v, [])
  else if (v.stats p.src).isSome then
    (v.adjust p.src (fun stats => statsIncr stats false (int32 p.size.toNat))).answer p.dst p.src p.tv
  else if (v.stats p.dst).isSome then
    let counted := v.adjust p.dst (fun stats => statsIncr stats true (int32 p.size.toNat))
    (if p.allocs.keepsRequest then counted.enter p.src p.dst (p.request protocol) else counted, [])
  else (v, [])

section Lookups

variable (v : Board) (e e' client server client' server' : Endpoint)

theorem ext {v w : Board} (hs : ∀ e, v.stats e = w.stats e)
    (hp : ∀ client server, v.pending client server = w.pending client server) : v = w := by
  funext c
  cases c with
  | server e => exact hs e
  | slot client server => exact hp client server

theorem stats_setStats (x : Option QueryStats) :
    (v.setStats e x).stats e' = if e' = e then x else v.stats e' := by
  by_cases he : e' = e
  · subst he
    rw [if_pos rfl]
    exact Function.update_self ..
  · rw [if_neg he]
    exact Function.update_of_ne (by simpa using he) _ _

theorem pending_setStats (x : Option QueryStats) :
    (v.setStats e x).pending client server = v.pending client server := by
  rw [pending, setStats]
  exact Function.update_of_ne (by simp) _ _

theorem stats_setPending (x : Option Request) :
    (v.setPending client server x).stats e = v.stats e := by
  rw [stats, setPending]
  exact Function.update_of_ne (by simp) _ _

theorem pending_setPending (x : Option Request) :
    (v.setPending client server x).pending client' server' =
      if (client', server') = (client, server) then x else v.pending client' server' := by
  by_cases he : (client', server') = (client, server)
  · cases he
    rw [if_pos rfl]
    exact Function.update_self ..
  · rw [if_neg he]
    exact Function.update_of_ne (by simpa using he) _ _

end Lookups

section Locality

variable {F : Set Cell} {v w : Board} {e client server : Endpoint} {c : Cell}

theorem adjust_of_notMem (f : QueryStats → QueryStats) (he : .server e ∈ F) (hc : c ∉ F) :
    v.adjust e f c = v c :=
  Function.update_of_ne (fun hh => hc (by rwa [hh])) _ _

theorem agree_stats (h : AgreeOn F v w) (he : .server e ∈ F) : v.stats e = w.stats e := h _ he

theorem agree_pending (h : AgreeOn F v w) (hs : .slot client server ∈ F) :
    v.pending client server = w.pending client server := h _ hs

theorem agree_adjust (f : QueryStats → QueryStats) (h : AgreeOn F v w) (he : .server e ∈ F) :
    AgreeOn F (v.adjust e f) (w.adjust e f) := by
  rw [adjust, adjust, agree_stats h he]
  exact h.update _ _

theorem agree_answer (tv : Timeval) (h : AgreeOn F v w) (hs : .slot client server ∈ F)
    (he : .server server ∈ F) :
    AgreeOn F (v.answer client server tv).1 (w.answer client server tv).1 ∧
      (v.answer client server tv).2 = (w.answer client server tv).2 := by
  rw [answer, answer, agree_pending h hs]
  cases w.pending client server with
  | none => exact ⟨h, rfl⟩
  | some req => exact ⟨(agree_adjust _ h he).update _ _, rfl⟩

theorem answer_of_notMem (tv : Timeval) (hs : .slot client server ∈ F) (he : .server server ∈ F)
    (hc : c ∉ F) : (v.answer client server tv).1 c = v c := by
  rw [answer]
  cases v.pending client server with
  | none => rfl
  | some req =>
    refine (Function.update_of_ne (fun hh => hc (by rwa [hh])) _ _).trans ?_
    exact adjust_of_notMem _ he hc

end Locality

end Board

namespace Packet

/-- The cells that belong to the two endpoints of a packet. -/
def footprint (p : Packet) : Set Cell :=
  {.server p.src, .server p.dst, .slot p.src p.dst, .slot p.dst p.src}

variable (p : Packet)

theorem src_mem : .server p.src ∈ p.footprint := by simp [footprint]

theorem dst_mem : .server p.dst ∈ p.footprint := by simp [footprint]

theorem request_mem : .slot p.src p.dst ∈ p.footprint := by simp [footprint]

theorem response_mem : .slot p.dst p.src ∈ p.footprint := by simp [footprint]

theorem named_mem : .server p.named ∈ p.footprint := by
  rw [UserPacket.named]
  split
  · exact p.src_mem
  · exact p.dst_mem

theorem touch_local (protocol : ProtocolType) : LocalTo p.footprint (Board.touch protocol p) where
  frame v c hc := by
    rw [Board.touch]
    split
    · split
      · exact Function.update_of_ne (fun hh => hc (by rw [hh]; exact p.named_mem)) _ _
      · rfl
    · split
      · rw [Board.answer_of_notMem _ p.response_mem p.src_mem hc,
          Board.adjust_of_notMem _ p.src_mem hc]
      · split
        · simp only
          split
          · refine (Function.update_of_ne (fun hh => hc (by rw [hh]; exact p.request_mem)) _ _).trans ?_
            exact Board.adjust_of_notMem _ p.dst_mem hc
          · exact Board.adjust_of_notMem _ p.dst_mem hc
        · rfl
  agree v w h := by
    have hsrc := Board.agree_stats h p.src_mem
    have hdst := Board.agree_stats h p.dst_mem
    have hnamed := Board.agree_stats h p.named_mem
    rw [Board.touch, Board.touch, hsrc, hdst]
    split
    · split
      · rw [Board.register, Board.register, hnamed]
        exact ⟨h.update _ _, rfl⟩
      · exact ⟨h, rfl⟩
    · split
      · exact Board.agree_answer _ (Board.agree_adjust _ h p.src_mem) p.response_mem p.src_mem
      · split
        · have hcounted := Board.agree_adjust
            (fun stats => statsIncr stats true (int32 p.size.toNat)) h p.dst_mem
          simp only
          split
          · rw [Board.enter, Board.enter, Board.agree_pending hcounted p.request_mem]
            exact ⟨hcounted.update _ _, trivial⟩
          · exact ⟨hcounted, trivial⟩
        · exact ⟨h, rfl⟩

theorem footprint_disjoint {a b : Packet} (h : List.Disjoint [a.src, a.dst] [b.src, b.dst]) :
    ∀ c ∈ a.footprint, c ∉ b.footprint := by
  simp only [List.disjoint_cons_left, List.mem_cons, List.not_mem_nil, or_false, not_or] at h
  obtain ⟨⟨h1, h2⟩, ⟨h3, h4⟩, -⟩ := h
  simp [footprint, h1, h2, h3, h4]

end Packet

namespace Sniffer

def board (s : Sniffer) : Board
  | .server e => s.synTab.get (endpointKey e)
  | .slot client server => s.requests.get (pairKey client server)

theorem stats_board (s : Sniffer) (e : Endpoint) : s.board.stats e = s.synTab.get (endpointKey e) := rfl

theorem pending_board (s : Sniffer) (client server : Endpoint) :
    s.board.pending client server = s.requests.get (pairKey client server) := rfl

theorem board_setStats (s : Sniffer) {t : Table QueryStats} {e : Endpoint} {x : Option QueryStats}
    (ht : ∀ k, t.get k = if k = endpointKey e then x else s.synTab.get k) :
    board { s with synTab := t } = s.board.setStats e x := by
  refine Board.ext (fun e' => ?_) fun client server => ?_
  · rw [stats_board, Board.stats_setStats, ht]
    simp only [endpointKey_injective.eq_iff, stats_board]
  · rw [Board.pending_setStats]
    rfl

theorem board_setPending (s : Sniffer) {t : Table Request} {client server : Endpoint}
    {x : Option Request}
    (ht : ∀ k, t.get k = if k = pairKey client server then x else s.requests.get k) :
    board { s with requests := t } = s.board.setPending client server x := by
  refine Board.ext (fun e => ?_) fun client' server' => ?_
  · rw [Board.stats_setPending]
    rfl
  · have hkey : pairKey client' server' = pairKey client server ↔
        (client', server') = (client, server) :=
      ⟨fun hk => slotKey_injective hk, fun he => by cases he; rfl⟩
    rw [pending_board, Board.pending_setPending, ht]
    simp only [hkey, pending_board]

theorem board_adjust (s : Sniffer) (e : Endpoint) (f : QueryStats → QueryStats) :
    board { s with synTab := s.synTab.adjust (endpointKey e) f } = s.board.adjust e f :=
  s.board_setStats fun k => s.synTab.get_adjust (endpointKey e) k f

theorem board_register (s : Sniffer) (a : Allocs) (e : Endpoint) :
    (registerEndpoint a s e).board = if a.keepsEndpoint then s.board.register e else s.board := by
  rw [registerEndpoint_eq, apply_ite board]
  congr 1
  have hadd := s.board_setStats fun k => s.synTab.get_add (endpointKey e) k (QueryStats.zeroed e)
  rw [registerEndpoint]
  split
  · rename_i hreg
    obtain ⟨stats, hs⟩ := Option.isSome_iff_exists.mp hreg
    rw [Board.register, stats_board, hs, Option.getD_some, ← hs]
    exact (Function.update_eq_self _ _).symm
  · exact hadd

theorem board_observe (s : Sniffer) {target : Endpoint}
    (hreg : (s.synTab.get (endpointKey target)).isSome) (delta : Int) :
    (observeResponse s target delta).1.board =
      s.board.adjust target (fun stats => statsObserverLatency stats delta) := by
  rw [observeResponse, if_pos hreg]
  exact s.board_adjust target _

theorem board_finish (s : Sniffer) (p : UserPacket) (req : Request) :
    (finishResponse s p req).1.board = s.board.setPending p.dst p.src none :=
  s.board_setPending fun k => s.requests.get_del (pairKey p.dst p.src) k

theorem board_response (s : Sniffer) (p : UserPacket)
    (hreg : (s.synTab.get (endpointKey p.src)).isSome) :
    ((processResponsePacket s p).1.board, samplesOf (processResponsePacket s p).2) =
      s.board.answer p.dst p.src p.tv := by
  have hmonitor := congrArg Prod.snd (s.toMonitor_response p)
  rw [processResponsePacket, Monitor.answer, lookup_pending] at hmonitor
  rw [processResponsePacket, Board.answer, pending_board]
  cases hg : s.requests.get (pairKey p.dst p.src) with
  | none => rfl
  | some req =>
    simp only [hg, Option.map_some, if_pos ((s.registered_iff p.src).mpr hreg)] at hmonitor
    simp only [board_finish, board_observe s hreg, hmonitor]

theorem board_direction (s : Sniffer) (p : UserPacket) :
    match (packetDirection s p).2 with
    | .response => (s.board.stats p.src).isSome = true ∧ (packetDirection s p).1.board =
        s.board.adjust p.src (fun stats => statsIncr stats false (int32 p.size.toNat))
    | .request => (s.board.stats p.src).isSome = false ∧ (s.board.stats p.dst).isSome = true ∧
        (packetDirection s p).1.board =
          s.board.adjust p.dst (fun stats => statsIncr stats true (int32 p.size.toNat))
    | .unknown => (s.board.stats p.src).isSome = false ∧ (s.board.stats p.dst).isSome = false ∧
        (packetDirection s p).1.board = s.board := by
  rw [packetDirection, stats_board, stats_board]
  cases hs : (s.synTab.get (endpointKey p.src)).isSome with
  | true => exact ⟨rfl, s.board_adjust p.src _⟩
  | false =>
    cases hd : (s.synTab.get (endpointKey p.dst)).isSome with
    | true => exact ⟨rfl, rfl, s.board_adjust p.dst _⟩
    | false => exact ⟨rfl, rfl, rfl⟩

theorem Monitoring.board_request {s s' : Sniffer} (h : s.Monitoring) {p : Packet}
    (hroom : s.requests.size < maxPendingRequests)
    (hs' : processRequestPacket p.allocs s p.toUserPacket = some s') :
    s'.board = if p.allocs.keepsRequest then s.board.enter p.src p.dst (p.request s.protocol)
      else s.board := by
  have hfull : s.toMonitor.full = false := by
    rw [Monitor.full, decide_eq_false_iff_not, ← h.size_eq]
    omega
  have hadd := s.board_setPending fun k =>
    s.requests.get_add (pairKey p.src p.dst) k (p.request s.protocol)
  rw [processRequestPacket_eq h p.readable, hfull] at hs'
  rw [← Option.some.inj hs']
  cases hk : p.allocs.keepsRequest with
  | false => simp
  | true =>
    simp only [Bool.false_eq_true, not_true_eq_false, or_self, or_false, if_true]
    split
    · rename_i hwaits
      obtain ⟨req, hg⟩ := Option.isSome_iff_exists.mp hwaits
      rw [Board.enter, pending_board, hg, Option.getD_some, ← hg]
      exact (Function.update_eq_self _ _).symm
    · exact hadd

/-- With room for a request, processing a packet is its action on the swept board. -/
theorem Monitoring.board_process {s : Sniffer} (h : s.Monitoring) (p : Packet)
    (hroom : (expireStaleRequests s p.tv).requests.size < maxPendingRequests) :
    ((s.process p).1.board, samplesOf (s.process p).2) =
      Board.touch s.protocol p (expireStaleRequests s p.tv).board := by
  have hprotocol := (TablesOnly.direction (expireStaleRequests s p.tv) p.toUserPacket).protocol.trans
    (protocol_expire s p.tv)
  have hsize := congrArg (fun t : Table Request => t.size)
    (requests_direction (expireStaleRequests s p.tv) p.toUserPacket)
  have hdir := board_direction (expireStaleRequests s p.tv) p.toUserPacket
  rw [Board.touch]
  rcases h.process_cases p with ⟨h0, hsyn, hproc⟩ | ⟨h0, hsyn, hproc⟩ | ⟨h0, hd, hproc⟩ |
    ⟨h0, hd, s', hs', hproc⟩ | ⟨h0, hd, hproc⟩
  · rw [hproc, if_pos h0, hsyn, Bool.true_and, board_register]
    rfl
  · rw [hproc, if_pos h0, hsyn]
    rfl
  · rw [hd] at hdir
    obtain ⟨hs, hboard⟩ := hdir
    have hreg : ((packetDirection (expireStaleRequests s p.tv) p.toUserPacket).1.synTab.get
        (endpointKey p.src)).isSome := by
      rw [← stats_board, hboard, Board.adjust, Board.stats_setStats, if_pos rfl, Option.isSome_map]
      exact hs
    rw [hproc, board_response _ _ hreg, hboard, if_neg h0, if_pos hs]
  · rw [hd] at hdir
    obtain ⟨hs, hdst, hboard⟩ := hdir
    have hrequest := ((h.expire p.tv).direction p.toUserPacket).board_request
      (hsize.trans_lt hroom) hs'
    rw [hprotocol, hboard] at hrequest
    rw [hproc, hrequest, if_neg h0, hs, hdst]
    rfl
  · rw [hd] at hdir
    obtain ⟨hs, hdst, hboard⟩ := hdir
    rw [hproc, hboard, if_neg h0, hs, hdst]
    rfl

theorem expirePrimed_expire (s : Sniffer) (now : Timeval) :
    (expireStaleRequests s now).expirePrimed = true ∧
      tvDeltaUs now (expireStaleRequests s now).lastExpire < expireIntervalUs := by
  have hself : tvDeltaUs now now < expireIntervalUs := by
    simp [tvDeltaUs, expireIntervalUs]
  rw [expireStaleRequests]
  cases hp : s.expirePrimed with
  | false => exact ⟨rfl, hself⟩
  | true =>
    by_cases hd : tvDeltaUs now s.lastExpire < expireIntervalUs
    · simp [hp, hd]
    · simp [hd, hself]

theorem Monitoring.expire_process {s : Sniffer} (h : s.Monitoring) {p q : Packet} (htv : p.tv = q.tv) :
    expireStaleRequests (s.process p).1 q.tv = (s.process p).1 := by
  obtain ⟨hprimed, hrecent⟩ := s.expirePrimed_expire p.tv
  have hsame := h.process_tablesOnly p
  rw [← htv, expireStaleRequests, hsame.expirePrimed, hsame.lastExpire, hprimed, if_pos hrecent]
  rfl

theorem Monitoring.size_process_le {s : Sniffer} (h : s.Monitoring) (p : Packet) :
    (s.process p).1.requests.size ≤ (expireStaleRequests s p.tv).requests.size + 1 := by
  rw [(h.process_refines p).1.size_card, (h.expire p.tv).size_card]
  rcases h.requests_process p with heq | heq | ⟨-, heq⟩
  · rw [heq]
    omega
  · have hcard := Finset.card_insert_le (pairKey p.src p.dst)
      (expireStaleRequests s p.tv).requests.toMap.keys
    rw [heq, Table.toMap_add, Finmap.keys_addNew]
    omega
  · have hcard := Finset.card_erase_le (a := pairKey p.dst p.src)
      (s := (expireStaleRequests s p.tv).requests.toMap.keys)
    rw [heq, Table.toMap_del, Finmap.keys_erase]
    omega

theorem Monitoring.board_process_process {s : Sniffer} (h : s.Monitoring) {a b : Packet}
    (htv : a.tv = b.tv) (hroom : (expireStaleRequests s a.tv).requests.size ≤ 99998) :
    (((s.process a).1.process b).1.board, samplesOf ((s.process a).1.process b).2) =
      Board.touch s.protocol b (Board.touch s.protocol a (expireStaleRequests s a.tv).board).1 := by
  have hfirst := h.board_process a (by unfold maxPendingRequests; omega)
  have hmon := (h.process_refines a).1
  have hsame := h.expire_process htv
  have hprotocol : (s.process a).1.protocol = s.protocol :=
    (h.process_tablesOnly a).protocol.trans (protocol_expire s a.tv)
  have hsize := h.size_process_le a
  rw [hmon.board_process b (by rw [hsame, maxPendingRequests]; omega), hsame, hprotocol, ← hfirst]

theorem Monitoring.tablesOnly_process_process {s : Sniffer} (h : s.Monitoring) {a b : Packet}
    (htv : a.tv = b.tv) :
    (expireStaleRequests s a.tv).TablesOnly ((s.process a).1.process b).1 := by
  have hsecond := (h.process_refines a).1.process_tablesOnly b
  rw [h.expire_process htv] at hsecond
  exact (h.process_tablesOnly a).trans hsecond

/-- The same endpoints with the same counters, the same requests waiting, and the same
time of the last sweep; chains may be in another order. -/
structure SameContents (s t : Sniffer) : Prop where
  stats : s.synTab.toMap = t.synTab.toMap
  pending : s.requests.toMap = t.requests.toMap
  lastExpire : s.lastExpire = t.lastExpire
  expirePrimed : s.expirePrimed = t.expirePrimed

theorem toMap_eq_of_keys {α : Type} {t u : Table α} {K : Set CString}
    (ht : ∀ key ∈ t.toMap.keys, key ∈ K) (hu : ∀ key ∈ u.toMap.keys, key ∈ K)
    (h : ∀ key ∈ K, t.get key = u.get key) : t.toMap = u.toMap := by
  apply Finmap.ext_lookup
  intro key
  by_cases hk : key ∈ K
  · rw [Table.lookup_toMap, Table.lookup_toMap, h key hk]
  · have hnone (w : Table α) (hw : ∀ key ∈ w.toMap.keys, key ∈ K) : w.toMap.lookup key = none :=
      Finmap.lookup_eq_none.mpr fun hm => hk (hw key hm)
    rw [hnone t ht, hnone u hu]

theorem Monitoring.sameContents {s t : Sniffer} (hs : s.Monitoring) (ht : t.Monitoring)
    (hboard : s.board = t.board) (hlast : s.lastExpire = t.lastExpire)
    (hprimed : s.expirePrimed = t.expirePrimed) : s.SameContents t where
  stats := by
    refine toMap_eq_of_keys hs.synKeys ht.synKeys ?_
    rintro _ ⟨e, rfl⟩
    exact congrFun hboard (.server e)
  pending := by
    refine toMap_eq_of_keys hs.requestKeys ht.requestKeys ?_
    rintro _ ⟨⟨client, server⟩, rfl⟩
    exact congrFun hboard (.slot client server)
  lastExpire := hlast
  expirePrimed := hprimed

end Sniffer

theorem Board.touch_samples (protocol : ProtocolType) (p : Packet) (v : Board) :
    ∀ x ∈ (touch protocol p v).2, x.1 = p.src := by
  rw [touch]
  split
  · simp
  · split
    · rw [answer]
      split <;> simp
    · split <;> simp

def samplesFor (e : Endpoint) (events : List Event) : List Int :=
  ((samplesOf events).filter (fun x => x.1 = e)).map Prod.snd

theorem filter_append_comm {a b e : Endpoint} (hne : a ≠ b) {xs ys : List (Endpoint × Int)}
    (hx : ∀ x ∈ xs, x.1 = a) (hy : ∀ y ∈ ys, y.1 = b) :
    (xs ++ ys).filter (fun x => x.1 = e) = (ys ++ xs).filter (fun x => x.1 = e) := by
  rw [List.filter_append, List.filter_append]
  by_cases he : a = e
  · have hnone : ys.filter (fun x => x.1 = e) = [] := by
      rw [List.filter_eq_nil_iff]
      intro y hm
      simpa [hy y hm, ← he] using Ne.symm hne
    rw [hnone, List.append_nil, List.nil_append]
  · have hnone : xs.filter (fun x => x.1 = e) = [] := by
      rw [List.filter_eq_nil_iff]
      intro x hm
      simpa [hx x hm] using he
    rw [hnone, List.append_nil, List.nil_append]

/-- In any state of a run, two packets at the same time that share no endpoint can be
processed in either order if both requests find room. -/
theorem Capture.independent_packets_commute (r : Capture) {a b : Packet} (htv : a.tv = b.tv)
    (hdisjoint : List.Disjoint [a.src, a.dst] [b.src, b.dst]) {n : Nat}
    (hn : n ≤ r.packets.length)
    (hroom : (expireStaleRequests (r.before n) a.tv).requests.size ≤ 99998) :
    (((r.before n).process a).1.process b).1.SameContents
        (((r.before n).process b).1.process a).1 ∧
      ∀ e, samplesFor e (((r.before n).process a).2 ++ (((r.before n).process a).1.process b).2) =
        samplesFor e (((r.before n).process b).2 ++ (((r.before n).process b).1.process a).2) := by
  have h := r.monitoring hn
  generalize r.before n = s at h hroom
  have hswap : expireStaleRequests s b.tv = expireStaleRequests s a.tv := by rw [htv]
  have hroom' : (expireStaleRequests s b.tv).requests.size ≤ 99998 := by rwa [hswap]
  have hlocal := Packet.footprint_disjoint hdisjoint
  have ha := a.touch_local s.protocol
  have hb := b.touch_local s.protocol
  let v := (expireStaleRequests s a.tv).board
  -- each order composes the same two actions on the board that the first sweep leaves
  have hab := h.board_process_process htv hroom
  have hba := h.board_process_process htv.symm hroom'
  have hfirst := congrArg Prod.snd (h.board_process a (by unfold maxPendingRequests; omega))
  have hsecond := congrArg Prod.snd (h.board_process b (by unfold maxPendingRequests; omega))
  rw [hswap] at hba hsecond
  constructor
  · have hboard := (congrArg Prod.fst hab).trans
      ((ha.commute hb hlocal v).trans (congrArg Prod.fst hba).symm)
    have hleft := h.tablesOnly_process_process htv
    have hright := h.tablesOnly_process_process htv.symm
    rw [hswap] at hright
    exact (((h.process_refines a).1.process_refines b).1).sameContents
      (((h.process_refines b).1.process_refines a).1) hboard
      (hleft.lastExpire.trans hright.lastExpire.symm)
      (hleft.expirePrimed.trans hright.expirePrimed.symm)
  · intro e
    have hne : a.src ≠ b.src := fun he => hdisjoint List.mem_cons_self (he ▸ List.mem_cons_self)
    have hbsnd := (congrArg Prod.snd hab).trans (ha.output_eq hb hlocal v)
    have hasnd := (congrArg Prod.snd hba).trans (hb.output_eq ha (fun c hb ha => hlocal c ha hb) v)
    rw [samplesFor, samplesFor, samplesOf_append, samplesOf_append]
    simp only at hfirst hsecond hbsnd hasnd
    rw [hfirst, hsecond, hbsnd, hasnd,
      filter_append_comm hne (Board.touch_samples _ a v) (Board.touch_samples _ b v)]

/-- A handshake elsewhere, at the time the answer of `pingCapture` arrives. -/
def otherSyn : Packet :=
  ⟨⟨0x02, true, ⟨0, 1500⟩, 3, 4, 2000, 6379, 0, 0, 0, 60, 0, 0, []⟩, emptyPayload_readable,
    emptyPayload_readable, Allocs.all⟩

theorem independent_packets_commute_ping :
    (expireStaleRequests (pingCapture.before 2) (pingCapture.packet ⟨2, by decide⟩).tv).requests.size = 1 ∧
      (((pingCapture.before 2).process (pingCapture.packet ⟨2, by decide⟩)).1.process otherSyn).1.SameContents
        (((pingCapture.before 2).process otherSyn).1.process (pingCapture.packet ⟨2, by decide⟩)).1 := by
  have hsize : (expireStaleRequests (pingCapture.before 2)
      (pingCapture.packet ⟨2, by decide⟩).tv).requests.size = 1 := by decide +kernel
  have hdisjoint : List.Disjoint [(pingCapture.packet ⟨2, by decide⟩).src,
      (pingCapture.packet ⟨2, by decide⟩).dst] [otherSyn.src, otherSyn.dst] := by
    rw [List.disjoint_left]
    decide
  have htv : (pingCapture.packet ⟨2, by decide⟩).tv = otherSyn.tv := by decide
  have hcommute := pingCapture.independent_packets_commute htv hdisjoint (n := 2) (by decide)
    (hsize.trans_le (by decide))
  exact ⟨hsize, hcommute.1⟩

end Tcpkit
