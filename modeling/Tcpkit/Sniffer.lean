import Tcpkit.Protocol
import Tcpkit.Stats
import Tcpkit.Table

/-! The sniffer state and the processing of one parsed packet, as in `packet.c`.
The parts that hold `stats_lock` are functions of their own. -/

namespace Tcpkit

open MachineInt

/-- The fields are 64-bit in the source. A savefile fills them from words of 32 bits and a
live capture from the clock, so no difference in microseconds leaves 64 bits; what is
shown of printed times bounds them (`Timeval.Near`, `Packet.Timed`). -/
structure Timeval where
  tvSec : Int
  tvUsec : Int
  deriving DecidableEq

structure UserPacket where
  flags : UInt8
  isTcp : Bool
  tv : Timeval
  ipSrc : UInt32
  ipDst : UInt32
  portSrc : UInt16
  portDst : UInt16
  window : UInt16
  seq : UInt32
  ack : UInt32
  size : UInt32
  payloadSize : Int
  wirePayloadSize : Int
  payload : List UInt8
  deriving DecidableEq

def UserPacket.src (p : UserPacket) : Endpoint := ⟨p.ipSrc, p.portSrc⟩

def UserPacket.dst (p : UserPacket) : Endpoint := ⟨p.ipDst, p.portDst⟩

structure Request where
  tv : Timeval
  seq : Int
  size : Int
  payload : List UInt8
  deriving DecidableEq

inductive ProtocolType where
  | raw
  | redis
  | memcached
  | http
  deriving DecidableEq

inductive LinkType where
  | null
  | linuxSll
  | en10mb
  | raw
  | other (value : Int)
  deriving DecidableEq

structure PcapPkthdr where
  ts : Timeval
  caplen : UInt32
  len : UInt32
  deriving DecidableEq

structure Sniffer where
  datalink : LinkType
  protocol : ProtocolType
  threshold : Int
  synTab : Table QueryStats
  requests : Table Request
  lastExpire : Timeval
  expirePrimed : Bool
  luaState : Bool
  dumper : Option (List (PcapPkthdr × List UInt8))

inductive Event where
  | sample (target : Endpoint) (latency : Int)
  | exchange (tv : Timeval) (client server : Endpoint) (delta : Int) (payload : List UInt8)
  | userPacket (p : UserPacket)
  | script (p : UserPacket)
  deriving DecidableEq

/-- Which of the allocations of one packet succeed. -/
structure Allocs where
  stats : Bool
  request : Bool
  payload : Bool
  entry : Bool
  key : Bool
  deriving DecidableEq

def Allocs.all : Allocs := ⟨true, true, true, true, true⟩

def endpointText (e : Endpoint) : CString :=
  CString.joined 0x3a (by decide) (CString.decimal e.ip.toNat) (CString.decimal e.port.toNat)

def endpointKey (e : Endpoint) : CString := CString.snprintf 32 (endpointText e)

theorem space_ne_nul : (0x20 : UInt8) ≠ 0 := by decide

/-- `"%u:%d %u:%d"`. -/
def pairKey (client server : Endpoint) : CString :=
  CString.snprintf 64 (CString.joined 0x20 (by decide) (endpointText client) (endpointText server))

def requestTimeoutUs : Int := 60000000

def expireIntervalUs : Int := 1000000

def maxPendingRequests : Int := 100000

def tvDeltaUs (later earlier : Timeval) : Int :=
  (later.tvSec - earlier.tvSec) * 1000000 + (later.tvUsec - earlier.tvUsec)

def requestExpired (now : Timeval) (timeoutUs : Int) (req : Request) : Bool :=
  tvDeltaUs now req.tv > timeoutUs

def requestsExpire (requests : Table Request) (now : Timeval) (timeoutUs : Int) : Table Request :=
  requests.sweep (requestExpired now timeoutUs)

def expireStaleRequests (s : Sniffer) (now : Timeval) : Sniffer :=
  if !s.expirePrimed then { s with expirePrimed := true, lastExpire := now }
  else if tvDeltaUs now s.lastExpire < expireIntervalUs then s
  else
    { s with lastExpire := now, requests := requestsExpire s.requests now requestTimeoutUs }

/-- The results `-1`, `0` and `1` of `packet_direction`. -/
inductive Direction where
  | unknown
  | response
  | request
  deriving DecidableEq

/-- Runs under `stats_lock`. The source endpoint is looked up first. -/
def packetDirection (s : Sniffer) (p : UserPacket) : Sniffer × Direction :=
  if (s.synTab.get (endpointKey p.src)).isSome then
    ({ s with
        synTab := s.synTab.adjust (endpointKey p.src)
          (fun stats => statsIncr stats false (int32 p.size.toNat)) }, .response)
  else if (s.synTab.get (endpointKey p.dst)).isSome then
    ({ s with
        synTab := s.synTab.adjust (endpointKey p.dst)
          (fun stats => statsIncr stats true (int32 p.size.toNat)) }, .request)
  else (s, .unknown)

/-- Runs under `stats_lock`: an endpoint is registered once. -/
def registerEndpoint (a : Allocs) (s : Sniffer) (e : Endpoint) : Sniffer :=
  if (s.synTab.get (endpointKey e)).isSome then s
  else if a.stats then
    { s with synTab := s.synTab.add a.entry a.key (endpointKey e) (QueryStats.zeroed e) }
  else s

/-- Runs under `stats_lock`: the sample of a matched response. -/
def observeResponse (s : Sniffer) (target : Endpoint) (delta : Int) : Sniffer × List Event :=
  if (s.synTab.get (endpointKey target)).isSome then
    ({ s with
        synTab := s.synTab.adjust (endpointKey target)
          (fun stats => statsObserverLatency stats delta) }, [.sample target delta])
  else (s, [])

def formatPayload (a : Allocs) (protocol : ProtocolType) (p : UserPacket) :
    Access (Option (List UInt8)) :=
  match protocol with
  | .redis => formatRedis a.payload p.payload p.payloadSize
  | .memcached => formatMemcached a.payload p.payload p.payloadSize
  | .http => formatHttp a.payload p.payload p.payloadSize
  | .raw => formatRaw a.payload p.payload p.payloadSize

def summaryLength (payload : List UInt8) : Int := (payload.takeWhile (fun c => c ≠ 0)).length

def processRequestPacket (a : Allocs) (s : Sniffer) (p : UserPacket) : Access Sniffer :=
  let key := pairKey p.src p.dst
  if (s.requests.get key).isSome then some s
  else if s.requests.size ≥ maxPendingRequests then some s
  else if !a.request then some s
  else (formatPayload a s.protocol p).map fun payload =>
    match payload with
    | none => s
    | some payload =>
      { s with
        requests := s.requests.add a.entry a.key key
          ⟨p.tv, int32 p.seq.toNat, summaryLength payload, payload⟩ }

def belowThreshold (s : Sniffer) (delta : Int) : Bool :=
  s.threshold ≠ 0 ∧ delta < int32 (s.threshold * 1000)

/-- What follows the sample: the exchange is printed unless it was fast, and
its request is dropped either way. -/
def finishResponse (s : Sniffer) (p : UserPacket) (req : Request) : Sniffer × List Event :=
  let delta := tvDeltaUs p.tv req.tv
  ({ s with requests := s.requests.del (pairKey p.dst p.src) },
    if belowThreshold s delta then [] else [.exchange p.tv p.dst p.src delta req.payload])

def processResponsePacket (s : Sniffer) (p : UserPacket) : Sniffer × List Event :=
  match s.requests.get (pairKey p.dst p.src) with
  | none => (s, [])
  | some req =>
    let observed := observeResponse s p.src (tvDeltaUs p.tv req.tv)
    let finished := finishResponse observed.1 p req
    (finished.1, observed.2 ++ finished.2)

def UserPacket.syn (p : UserPacket) : Bool := p.flags &&& 0x02 ≠ 0

def UserPacket.named (p : UserPacket) : Endpoint :=
  if p.flags &&& 0x10 ≠ 0 then p.src else p.dst

def processUserPacket (a : Allocs) (s : Sniffer) (p : UserPacket) :
    Access (Sniffer × List Event) :=
  if s.luaState then some (s, [.script p])
  else if s.protocol = .raw then some (s, [.userPacket p])
  else
    let s := expireStaleRequests s p.tv
    if p.payloadSize = 0 then
      if p.syn then some (registerEndpoint a s p.named, []) else some (s, [])
    else
      let directed := packetDirection s p
      match directed.2 with
      | .response => some (processResponsePacket directed.1 p)
      | .request => (processRequestPacket a directed.1 p).map fun s => (s, [])
      | .unknown => some (directed.1, [])

section

variable {a : Allocs} {s : Sniffer} {p : UserPacket}

/-- A script takes every packet, and raw mode prints it. -/
theorem processUserPacket_idle (h : s.luaState = true ∨ s.protocol = .raw) (a : Allocs) (p : UserPacket) :
    processUserPacket a s p = some (s, [if s.luaState then .script p else .userPacket p]) := by
  rw [processUserPacket]
  by_cases hscript : s.luaState = true
  · rw [if_pos hscript, if_pos hscript]
  · rw [if_neg hscript, if_pos (h.resolve_left hscript), if_neg hscript]

theorem processUserPacket_empty (hscript : s.luaState = false) (hraw : s.protocol ≠ .raw)
    (h0 : p.payloadSize = 0) :
    processUserPacket a s p = some (if p.syn then registerEndpoint a (expireStaleRequests s p.tv) p.named
      else expireStaleRequests s p.tv, []) := by
  rw [processUserPacket, hscript, if_neg Bool.false_ne_true, if_neg hraw, if_pos h0]
  split <;> rfl

theorem processUserPacket_data (hscript : s.luaState = false) (hraw : s.protocol ≠ .raw)
    (h0 : p.payloadSize ≠ 0) :
    processUserPacket a s p =
      match (packetDirection (expireStaleRequests s p.tv) p).2 with
      | .response => some (processResponsePacket (packetDirection (expireStaleRequests s p.tv) p).1 p)
      | .request => (processRequestPacket a (packetDirection (expireStaleRequests s p.tv) p).1 p).map
        fun s => (s, [])
      | .unknown => some ((packetDirection (expireStaleRequests s p.tv) p).1, []) := by
  rw [processUserPacket, hscript, if_neg Bool.false_ne_true, if_neg hraw, if_neg h0]

end

structure Options where
  protocol : ProtocolType := .raw
  threshold : Int := 0
  script : Option CString := none
  saveFile : Option CString := none

def snifferCreate (opts : Options) (datalink : LinkType) : Sniffer where
  datalink := datalink
  protocol := opts.protocol
  threshold := opts.threshold
  synTab := Table.create 16 (by decide)
  requests := Table.create 102400 (by decide)
  lastExpire := ⟨0, 0⟩
  expirePrimed := false
  luaState := opts.script.isSome
  dumper := opts.saveFile.map fun _ => []

end Tcpkit
