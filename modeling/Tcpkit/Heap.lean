import Tcpkit.Ownership
import Tcpkit.Sniffer

/-! The sniffer with its heap: the blocks behind the records of its two tables,
and every `malloc`, `calloc` and `free` that `packet.c` makes for them. -/

namespace Tcpkit

open MachineInt

/-- A block is known by how many were allocated before it, since an address may be
handed out again after it was freed. -/
abbrev Block := Nat

structure HeapStats where
  block : Block
  stats : QueryStats

/-- A `struct request` and the payload it points to are two blocks. -/
structure HeapRequest where
  block : Block
  payloadBlock : Block
  request : Request

structure HeapSniffer where
  datalink : LinkType
  protocol : ProtocolType
  threshold : Int
  synTab : Table HeapStats
  requests : Table HeapRequest
  lastExpire : Timeval
  expirePrimed : Bool
  luaState : Bool
  dumper : Option (List (PcapPkthdr × List UInt8))
  ledger : Ledger Block

def freeStats (v : HeapStats) : List Block := [v.block]

def freeRequest (v : HeapRequest) : List Block := [v.payloadBlock, v.block]

namespace HeapSniffer

def fresh (s : HeapSniffer) : Block := s.ledger.taken.length

def malloc (s : HeapSniffer) : HeapSniffer := { s with ledger := s.ledger.take s.fresh }

def expireStaleRequests (s : HeapSniffer) (now : Timeval) : HeapSniffer :=
  if !s.expirePrimed then { s with expirePrimed := true, lastExpire := now }
  else if tvDeltaUs now s.lastExpire < expireIntervalUs then s
  else
    let expired (v : HeapRequest) := requestExpired now requestTimeoutUs v.request
    { s with
      lastExpire := now
      requests := s.requests.sweep expired
      ledger := s.ledger.free
        ((hashtableSweepFreed s.requests.toHashtable expired).flatMap freeRequest) }

def adjustStats (s : HeapSniffer) (e : Endpoint) (f : QueryStats → QueryStats) : HeapSniffer :=
  { s with synTab := s.synTab.adjust (endpointKey e) (fun v => { v with stats := f v.stats }) }

def packetDirection (s : HeapSniffer) (p : UserPacket) : HeapSniffer × Direction :=
  if (s.synTab.get (endpointKey p.src)).isSome then
    (s.adjustStats p.src (fun stats => statsIncr stats false (int32 p.size.toNat)), .response)
  else if (s.synTab.get (endpointKey p.dst)).isSome then
    (s.adjustStats p.dst (fun stats => statsIncr stats true (int32 p.size.toNat)), .request)
  else (s, .unknown)

/-- The result of `hashtable_add` is not looked at: a block it does not store is
neither held nor freed. -/
def registerEndpoint (a : Allocs) (s : HeapSniffer) (e : Endpoint) : HeapSniffer :=
  if (s.synTab.get (endpointKey e)).isSome then s
  else if a.stats then
    { s.malloc with
      synTab := s.synTab.add a.entry a.key (endpointKey e) ⟨s.fresh, QueryStats.zeroed e⟩ }
  else s

def observeResponse (s : HeapSniffer) (target : Endpoint) (delta : Int) :
    HeapSniffer × List Event :=
  if (s.synTab.get (endpointKey target)).isSome then
    (s.adjustStats target (fun stats => statsObserverLatency stats delta), [.sample target delta])
  else (s, [])

/-- The record is allocated before its payload, and freed when that fails. -/
def processRequestPacket (a : Allocs) (s : HeapSniffer) (p : UserPacket) : Access HeapSniffer :=
  let key := pairKey p.src p.dst
  if (s.requests.get key).isSome then some s
  else if s.requests.size ≥ maxPendingRequests then some s
  else if !a.request then some s
  else (formatPayload a s.protocol p).map fun payload =>
    match payload with
    | none => { s.malloc with ledger := s.malloc.ledger.free [s.fresh] }
    | some payload =>
      { s.malloc.malloc with
        requests := s.requests.add a.entry a.key key
          ⟨s.fresh, s.malloc.fresh, p.tv, int32 p.seq.toNat, summaryLength payload, payload⟩ }

def forgetRequest (s : HeapSniffer) (key : CString) : HeapSniffer :=
  { s with
    requests := s.requests.del key
    ledger := s.ledger.free ((hashtableDelFreed s.requests.toHashtable key).flatMap freeRequest) }

def finishResponse (s : HeapSniffer) (p : UserPacket) (req : Request) : HeapSniffer × List Event :=
  let delta := tvDeltaUs p.tv req.tv
  (s.forgetRequest (pairKey p.dst p.src),
    if s.threshold ≠ 0 ∧ delta < int32 (s.threshold * 1000) then []
    else [.exchange p.tv p.dst p.src delta req.payload])

def processResponsePacket (s : HeapSniffer) (p : UserPacket) : HeapSniffer × List Event :=
  match s.requests.get (pairKey p.dst p.src) with
  | none => (s, [])
  | some v =>
    let observed := s.observeResponse p.src (tvDeltaUs p.tv v.request.tv)
    let finished := observed.1.finishResponse p v.request
    (finished.1, observed.2 ++ finished.2)

/-- The switch on `packet_direction`. -/
def processDirected (a : Allocs) (s : HeapSniffer) (p : UserPacket) :
    Access (HeapSniffer × List Event) :=
  let directed := s.packetDirection p
  match directed.2 with
  | .response => some (directed.1.processResponsePacket p)
  | .request => (directed.1.processRequestPacket a p).map fun s => (s, [])
  | .unknown => some (directed.1, [])

def processUserPacket (a : Allocs) (s : HeapSniffer) (p : UserPacket) :
    Access (HeapSniffer × List Event) :=
  if s.luaState then some (s, [.script p])
  else if s.protocol = .raw then some (s, [.userPacket p])
  else
    let s := s.expireStaleRequests p.tv
    if p.payloadSize = 0 then
      if p.syn then some (registerEndpoint a s p.named, []) else some (s, [])
    else processDirected a s p

def create (opts : Options) (datalink : LinkType) : HeapSniffer where
  datalink := datalink
  protocol := opts.protocol
  threshold := opts.threshold
  synTab := Table.create 16 (Nat.succ_pos _)
  requests := Table.create 102400 (Nat.succ_pos _)
  lastExpire := ⟨0, 0⟩
  expirePrimed := false
  luaState := opts.script.isSome
  dumper := opts.saveFile.map fun _ => []
  ledger := Ledger.empty

/-- The blocks reachable from the entries of the two tables. -/
def held (s : HeapSniffer) : List Block :=
  s.synTab.values.flatMap freeStats ++ s.requests.values.flatMap freeRequest

end HeapSniffer

end Tcpkit
