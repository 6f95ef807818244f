import Tcpkit.Report

/-! The scripts shipped with tcpkit, on the table `push_packet_to_lua_state` builds.
A Lua value that can be nil is an option, and the operations that raise on nil
return in `Except`. What the scripts print is left out here. -/

namespace Tcpkit

abbrev LuaString := List UInt8

inductive LuaError where
  | arithmeticOnNil
  | concatenateNil
  | badArgument (index : Nat)
  deriving DecidableEq

def luaLiteral (s : String) : LuaString := s.toUTF8.toList

def luaNumber (n : Int) : Int := n.sign * toDouble n.natAbs

/-- The text of an integer of at most 14 digits. -/
def luaText (n : Int) : LuaString :=
  if n < 0 then 0x2d :: (CString.decimal n.natAbs).bytes else (CString.decimal n.natAbs).bytes

def luaArithmetic : Option Int → Except LuaError Int
  | none => .error .arithmeticOnNil
  | some n => .ok n

def luaConcat : List (Option LuaString) → Except LuaError LuaString
  | [] => .ok []
  | none :: _ => .error .concatenateNil
  | some s :: rest => (luaConcat rest).map (s ++ ·)

def luaCheckNumber (index : Nat) : Option Int → Except LuaError Int
  | none => .error (.badArgument index)
  | some n => .ok n

def stringByte (s : LuaString) (i : Nat) : Option Int := s[i - 1]?.map fun c => (c.toNat : Int)

def stringSub (s : LuaString) (i j : Nat) : LuaString := (s.drop (i - 1)).take (j + 1 - i)

/-- `bit32` works on the low 32 bits. -/
def bit32Of (n : Int) : Nat := (n % 2 ^ 32).toNat

def bit32Band (x : Option Int) (y : Nat) : Except LuaError Nat :=
  (luaCheckNumber 1 x).map fun n => bit32Of n &&& y

def bit32Lshift (x : Option Int) (y : Nat) : Except LuaError Int :=
  (luaCheckNumber 1 x).map fun n => (((bit32Of n <<< y) % 2 ^ 32 : Nat) : Int)

def bit32Rshift (x : Option Int) (y : Nat) : Except LuaError Nat :=
  (luaCheckNumber 1 x).map fun n => bit32Of n >>> y

def padded (width : Nat) (fill : UInt8) (text : LuaString) : LuaString :=
  List.replicate (width - text.length) fill ++ text

/-- An item `%d` of `string.format` with a width; zeros stand behind the sign. -/
def formatSigned (index width : Nat) (zeros : Bool) (x : Option Int) : Except LuaError LuaString :=
  (luaCheckNumber index x).bind fun n =>
    if -2 ^ 63 < n ∧ n < 2 ^ 63 then
      .ok (if zeros then
          if n < 0 then 0x2d :: padded (width - 1) 0x30 (luaText (-n)) else padded width 0x30 (luaText n)
        else padded width 0x20 (luaText n))
    else .error (.badArgument index)

def formatUnsigned (index : Nat) (x : Option Int) : Except LuaError LuaString :=
  (luaCheckNumber index x).bind fun n =>
    if 0 ≤ n ∧ n < 2 ^ 64 then .ok (luaText n) else .error (.badArgument index)

structure LuaPacket where
  tvSec : Int
  tvUsec : Int
  sip : LuaString
  sport : Int
  dip : LuaString
  dport : Int
  seq : Option Int
  ack : Option Int
  flags : Option Int
  window : Option Int
  payload : LuaString
  size : Int

def pushPacketToLuaState (p : UserPacket) : LuaPacket where
  tvSec := luaNumber p.tv.tvSec
  tvUsec := luaNumber p.tv.tvUsec
  sip := (inetNtoa p.ipSrc).bytes
  sport := p.portSrc.toNat
  dip := (inetNtoa p.ipDst).bytes
  dport := p.portDst.toNat
  seq := if p.isTcp then some p.seq.toNat else none
  ack := if p.isTcp then some p.ack.toNat else none
  flags := if p.isTcp then some p.flags.toNat else none
  window := if p.isTcp then some p.window.toNat else none
  payload := p.payload.take p.payloadSize.toNat
  size := p.payloadSize

def flowKey (sip : LuaString) (sport : Int) (dip : LuaString) (dport : Int) : LuaString :=
  sip ++ luaLiteral ":" ++ luaText sport ++ luaLiteral " => " ++ dip ++ luaLiteral ":" ++ luaText dport

/-- `os.date('%Y-%m-%d %H:%M:%S', t)`, nil for a time that `localtime` cannot convert. -/
abbrev OsDate := Int → Option LuaString

/-- A call for each packet, up to the first error. -/
def runScript {σ : Type} (process : σ → LuaPacket → Except LuaError σ) (start : σ)
    (packets : List Packet) : Except LuaError σ :=
  packets.foldlM (fun s p => process s (pushPacketToLuaState p.toUserPacket)) start

section Dns

structure Decoder where
  payload : LuaString
  size : Int
  pos : Nat

abbrev Read (α : Type) := Option α × Option String

namespace Decoder

def new (payload : LuaString) (size : Int) : Decoder := ⟨payload, size, 1⟩

def readInt8 (d : Decoder) : Read Int × Decoder :=
  if d.pos > d.size then ((none, some "Read out of bound."), d)
  else ((stringByte d.payload d.pos, none), { d with pos := d.pos + 1 })

def readInt16 (d : Decoder) : Except LuaError (Read Int × Decoder) :=
  if d.pos + 1 > d.size then .ok ((none, some "Read out of bound."), d)
  else do
    let b1 ← bit32Lshift (stringByte d.payload d.pos) 8
    let b2 ← luaArithmetic (stringByte d.payload (d.pos + 1))
    return ((some (b1 + b2), none), { d with pos := d.pos + 2 })

/-- The loop of `read_domain`. A pass moves forward, so one more than the length of the
payload is enough. -/
def readDomainLoop : Nat → Decoder → Read Int → LuaString →
    Except LuaError (Read LuaString × Decoder)
  | 0, d, _, _ => .ok ((none, none), d)
  | fuel + 1, d, (size, err), domain =>
    if size = some 0 then .ok ((some domain, none), d)
    else if err.isSome then .ok ((none, err), d)
    else do
      let n ← luaArithmetic size
      if d.pos + n - 1 > d.size then .ok ((none, some "size is out of bound"), d)
      else
        let label := stringSub d.payload d.pos (d.pos + n.toNat - 1)
        let next := { d with pos := d.pos + n.toNat }.readInt8
        readDomainLoop fuel next.2 next.1 (domain ++ label ++ luaLiteral ".")

def readDomain (d : Decoder) : Except LuaError (Read LuaString × Decoder) :=
  readDomainLoop (d.payload.length + 1) d.readInt8.2 d.readInt8.1 []

end Decoder

def qtypeNames : List String :=
  ["A", "NS", "MD", "MD", "MF", "CNAME", "SOA", "MB", "MG", "MR", "NULL", "WKS", "PTR", "HINFO",
    "MINFO", "MX", "TXT"]

/-- `qtype_map[qtype]`; a nil index finds nothing. -/
def qtypeMap : Option Int → Option String
  | none => none
  | some n => if n = 28 then some "AAAA" else if n < 1 then none else qtypeNames[n.toNat - 1]?

structure DnsQuery where
  domains : LuaString
  tvSec : Int
  tvUsec : Int

/-- The loop over the questions. The errors of the reads are not looked at. -/
def questionLoop : Nat → Decoder → LuaString → Except LuaError LuaString
  | 0, _, domains => .ok domains
  | n + 1, d, domains => do
    let domain ← d.readDomain
    let qtype ← domain.2.readInt16
    let qclass ← qtype.2.readInt16
    let qname := ((qtypeMap qtype.1.1).map luaLiteral).or (qtype.1.1.map luaText)
    let domains ← luaConcat
      [some domains, some (luaLiteral " "), domain.1.1, some (luaLiteral " | "), qname]
    questionLoop n qclass.2 domains

abbrev DnsStorage := LuaString → Option DnsQuery

/-- The branch of `process` for a query, with the decoder behind the header. -/
def dnsQuery (storage : DnsStorage) (packet : LuaPacket) (id qcount : Option Int) (decoder : Decoder) :
    Except LuaError DnsStorage := do
  let count ← luaArithmetic qcount
  let domains ← questionLoop count.toNat decoder []
  let key ← luaConcat [some (flowKey packet.sip packet.sport packet.dip packet.dport),
    some (luaLiteral " "), id.map luaText]
  return Function.update storage key (some ⟨domains, packet.tvSec, packet.tvUsec⟩)

def dnsResponse (date : OsDate) (storage : DnsStorage) (packet : LuaPacket) (id : Option Int) :
    Except LuaError DnsStorage := do
  let key ← luaConcat [some (flowKey packet.dip packet.dport packet.sip packet.sport),
    some (luaLiteral " "), id.map luaText]
  match storage key with
  | none => return storage
  | some _ =>
    let usec ← formatSigned 2 6 true (some packet.tvUsec)
    let _ ← luaConcat [date packet.tvSec, some (luaLiteral "."), some usec]
    return Function.update storage key none

/-- `process` of `dns.lua`. -/
def dnsProcess (date : OsDate) (storage : DnsStorage) (packet : LuaPacket) :
    Except LuaError DnsStorage :=
  if packet.size < 12 then .ok storage
  else do
    let id ← (Decoder.new packet.payload packet.size).readInt16
    let code ← id.2.readInt16
    let qcount ← code.2.readInt16
    let acount ← qcount.2.readInt16
    let nscount ← acount.2.readInt16
    let arcount ← nscount.2.readInt16
    let qr ← bit32Rshift code.1.1 15
    if qr = 0 then dnsQuery storage packet id.1.1 qcount.1.1 arcount.2
    else dnsResponse date storage packet id.1.1

end Dns

section Connect

structure SynRecord where
  seq : Option Int
  count : Int
  tvSec : Int
  tvUsec : Int

abbrev SynTable := LuaString → Option SynRecord

/-- The line that is printed when a connection is answered or reset. -/
def reportConnect (date : OsDate) (first : SynRecord) (packet : LuaPacket) : Except LuaError Unit := do
  let _ ← luaConcat [date packet.tvSec, some (luaLiteral "."), some (luaText packet.tvUsec)]
  let borrow := packet.tvUsec < first.tvUsec
  let tvSec := if borrow then luaNumber (packet.tvSec - 1) else packet.tvSec
  let tvUsec := if borrow then luaNumber (packet.tvUsec + 1000000) else packet.tvUsec
  let _ ← formatSigned 4 6 false (some first.count)
  let _ ← formatSigned 5 12 false (some (luaNumber (tvSec - first.tvSec)))
  let _ ← formatSigned 6 6 true (some (luaNumber (tvUsec - first.tvUsec)))
  return ()

/-- The branch of `process` for a SYN: a repeated one is counted. -/
def recordSyn (synTable : SynTable) (packet : LuaPacket) : SynTable :=
  let key := flowKey packet.sip packet.sport packet.dip packet.dport
  match synTable key with
  | none => Function.update synTable key (some ⟨packet.seq, 0, packet.tvSec, packet.tvUsec⟩)
  | some syn =>
    if syn.seq = packet.seq then
      Function.update synTable key (some { syn with count := luaNumber (syn.count + 1) })
    else synTable

def answerSyn (date : OsDate) (synTable : SynTable) (packet : LuaPacket) : Except LuaError SynTable := do
  let key := flowKey packet.dip packet.dport packet.sip packet.sport
  match synTable key with
  | none => return Function.update synTable key none
  | some first =>
    if first.count ≥ 0 then reportConnect date first packet
    return Function.update synTable key none

/-- `process` of `tcp-connect.lua`. -/
def connectProcess (date : OsDate) (synTable : SynTable) (packet : LuaPacket) :
    Except LuaError SynTable :=
  if packet.size ≠ 0 then .ok synTable
  else if packet.flags = some 2 then .ok (recordSyn synTable packet)
  else do
    let answered ← if packet.flags = some 18 then .ok true
      else (bit32Band packet.flags 4).map fun n => n ≠ 0
    if answered then answerSyn date synTable packet else return synTable

end Connect

/-- `process` of `example.lua`. -/
def exampleProcess (date : OsDate) (_ : Unit) (packet : LuaPacket) : Except LuaError Unit :=
  if packet.size ≠ 0 then do
    let _ ← luaConcat [date packet.tvSec, some (luaLiteral "."), some (luaText packet.tvUsec)]
    let _ ← formatSigned 4 0 false (some packet.sport)
    let _ ← formatSigned 6 0 false (some packet.dport)
    let _ ← formatUnsigned 7 packet.seq
    let _ ← formatUnsigned 8 packet.ack
    let _ ← formatUnsigned 9 packet.flags
    let _ ← formatUnsigned 10 (some packet.size)
    return ()
  else .ok ()

end Tcpkit
