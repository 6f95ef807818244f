import Tcpkit.DnsNames
import Tcpkit.ScriptErrors
import Tcpkit.WireFormat

/-! What `dns.lua` stores for a query: the cursor lands on every type, and the names that the
script's table gives to the types. -/

namespace Tcpkit

/-- The record types of RFC 1035, and AAAA of RFC 3596. -/
inductive RecordType where
  | a | ns | md | mf | cname | soa | mb | mg | mr | null | wks | ptr | hinfo | minfo | mx | txt | aaaa
  deriving DecidableEq

namespace RecordType

def number : RecordType → UInt16
  | a => 1
  | ns => 2
  | md => 3
  | mf => 4
  | cname => 5
  | soa => 6
  | mb => 7
  | mg => 8
  | mr => 9
  | null => 10
  | wks => 11
  | ptr => 12
  | hinfo => 13
  | minfo => 14
  | mx => 15
  | txt => 16
  | aaaa => 28

def mnemonic : RecordType → String
  | a => "A"
  | ns => "NS"
  | md => "MD"
  | mf => "MF"
  | cname => "CNAME"
  | soa => "SOA"
  | mb => "MB"
  | mg => "MG"
  | mr => "MR"
  | null => "NULL"
  | wks => "WKS"
  | ptr => "PTR"
  | hinfo => "HINFO"
  | minfo => "MINFO"
  | mx => "MX"
  | txt => "TXT"
  | aaaa => "AAAA"

def shown (t : RecordType) : String := (qtypeMap (some t.number.toNat)).getD ""

theorem qtypeMap_number (t : RecordType) : qtypeMap (some t.number.toNat) = some t.shown := by
  cases t <;> rfl

/-- A row too many shifts the types from the fourth on. -/
theorem shown_eq_iff (t : RecordType) :
    luaLiteral t.shown = luaLiteral t.mnemonic ↔ t ∈ [a, ns, md, aaaa] := by
  cases t <;> decide +kernel

theorem blank_notMem_shown (t : RecordType) : 0x20 ∉ luaLiteral t.shown := by
  cases t <;> decide +kernel

theorem blank_notMem_mnemonic (t : RecordType) : 0x20 ∉ luaLiteral t.mnemonic := by
  cases t <;> decide +kernel

end RecordType

structure Question where
  labels : List LuaString
  sized : ∀ label ∈ labels, 1 ≤ label.length ∧ label.length ≤ 255
  qtype : RecordType
  qclass : UInt16

def Question.encode (q : Question) : LuaString :=
  encodeName q.labels ++ bytes16 q.qtype.number ++ bytes16 q.qclass

/-- A message with the QR bit clear. Nothing is said of the records behind the questions. -/
structure QueryMessage where
  id : UInt16
  code : UInt16
  query : code.toNat < 2 ^ 15
  questions : List Question
  counted : questions.length < 2 ^ 16
  acount : UInt16
  nscount : UInt16
  arcount : UInt16
  records : LuaString

def QueryMessage.encode (m : QueryMessage) : LuaString :=
  bytes16 m.id ++ (bytes16 m.code ++ (bytes16 (UInt16.ofNat m.questions.length) ++ (bytes16 m.acount ++
    bytes16 m.nscount ++ bytes16 m.arcount ++ (m.questions.flatMap Question.encode ++ m.records))))

/-- The questions in their order, the types under the given names. -/
def listed (name : RecordType → String) (questions : List Question) : LuaString :=
  questions.flatMap fun q =>
    luaLiteral " " ++ dotted q.labels ++ luaLiteral " | " ++ luaLiteral (name q.qtype)

section Cursor

variable {p : LuaString} {i : Nat}

theorem drop_behind {s t : LuaString} (h : p.drop i = s ++ t) : p.drop (i + s.length) = t := by
  rw [← List.drop_drop, h, List.drop_left]

theorem room_of_drop {v : UInt16} {rest : LuaString} (h : p.drop i = bytes16 v ++ rest) :
    i + 2 ≤ p.length := by
  have hlen := congrArg List.length h
  rw [List.length_drop, List.length_append, show (bytes16 v).length = 2 from rfl] at hlen
  omega

theorem questionLoop_encoded {q : Question} {rest : LuaString} (n : Nat) (domains : LuaString)
    (h : p.drop i = q.encode ++ rest) :
    questionLoop (n + 1) (Decoder.reading p i) domains =
      questionLoop n (Decoder.reading p (i + q.encode.length)) (domains ++ listed RecordType.shown [q]) := by
  rw [Question.encode, List.append_assoc, List.append_assoc] at h
  have htype := drop_behind h
  have hclass : p.drop (i + (encodeName q.labels).length + 2) = bytes16 q.qclass ++ rest := drop_behind htype
  have hname : EncodedAt p i q.labels := ⟨q.sized, _, h.symm⟩
  have hfuel : p.length < i + (p.length + 1) := by omega
  have hread : (Decoder.reading p i).readDomain =
      .ok ((some (dotted q.labels), none), Decoder.reading p (i + (encodeName q.labels).length)) :=
    Decoder.domainLoop_encoded [] hname hfuel
  have hnext : i + (encodeName q.labels).length + 2 + 2 = i + q.encode.length := by
    simp [Question.encode, bytes16]
    omega
  simp only [questionLoop, hread, Decoder.readInt16_of_le (room_of_drop htype), be16_of_drop htype,
    Decoder.readInt16_of_le (room_of_drop hclass), hnext, bind, Except.bind, RecordType.qtypeMap_number,
    Option.map_some, Option.some_or, luaConcat, Except.map]
  simp [listed]

theorem questionLoop_listed {questions : List Question} {rest : LuaString} (domains : LuaString)
    (h : p.drop i = questions.flatMap Question.encode ++ rest) :
    questionLoop questions.length (Decoder.reading p i) domains =
      .ok (domains ++ listed RecordType.shown questions) := by
  induction questions generalizing i domains with
  | nil => simp [questionLoop, listed]
  | cons q questions ih =>
    rw [List.flatMap_cons, List.append_assoc] at h
    rw [List.length_cons, questionLoop_encoded _ _ h, ih _ (drop_behind h)]
    simp [listed]

end Cursor

theorem listed_head (name : RecordType → String) (questions : List Question) :
    ∀ c ∈ (listed name questions).head?, c = 0x20 := by
  have hblank : luaLiteral " " = [0x20] := by decide +kernel
  cases questions with
  | nil => simp [listed]
  | cons q questions => simp [listed, hblank]

/-- Two lists of questions read the same only if every type is named the same. -/
theorem listed_inj {f g : RecordType → String} (hf : ∀ t, 0x20 ∉ luaLiteral (f t))
    (hg : ∀ t, 0x20 ∉ luaLiteral (g t)) (questions : List Question) :
    listed f questions = listed g questions ↔
      ∀ q ∈ questions, luaLiteral (f q.qtype) = luaLiteral (g q.qtype) := by
  induction questions with
  | nil => simp [listed]
  | cons q questions ih =>
    have hcons (name : RecordType → String) : listed name (q :: questions) =
        luaLiteral " " ++ dotted q.labels ++ luaLiteral " | " ++
          (luaLiteral (name q.qtype) ++ listed name questions) := by
      simp [listed]
    rw [hcons f, hcons g, List.append_cancel_left_eq, List.forall_mem_cons, ← ih]
    exact append_inj_of_notMem (hf q.qtype) (hg q.qtype) (listed_head f questions) (listed_head g questions)

namespace QueryMessage

variable (m : QueryMessage)

/-- The table that is pushed for a packet with the message as its payload. -/
def sentIn (packet : LuaPacket) : LuaPacket :=
  { packet with payload := m.encode, size := m.encode.length }

def key (packet : LuaPacket) : LuaString :=
  flowKey packet.sip packet.sport packet.dip packet.dport ++ luaLiteral " " ++ luaText m.id.toNat

theorem id_encode : be16 m.encode 0 = m.id := be16_of_drop rfl

theorem code_encode : be16 m.encode 2 = m.code := be16_of_drop rfl

theorem count_encode : (be16 m.encode 4).toNat = m.questions.length := by
  have hcount : be16 m.encode 4 = UInt16.ofNat m.questions.length := be16_of_drop rfl
  rw [hcount, UInt16.toNat_ofNat_of_lt' m.counted]

theorem length_encode : 12 ≤ m.encode.length := by
  simp [encode, bytes16]

theorem drop_encode : m.encode.drop 12 = m.questions.flatMap Question.encode ++ m.records := rfl

/-- Every query is stored with all its names in order, the types named by the script's table. -/
theorem dnsProcess_sentIn (date : OsDate) (storage : DnsStorage) (packet : LuaPacket) :
    dnsProcess date storage (m.sentIn packet) = .ok (Function.update storage (m.key packet)
      (some ⟨listed RecordType.shown m.questions, packet.tvSec, packet.tvUsec⟩)) := by
  have hheader : dnsProcess date storage (m.sentIn packet) = _ :=
    dnsProcess_header storage rfl m.length_encode
  have hloop := questionLoop_listed [] m.drop_encode
  have hpayload : (m.sentIn packet).payload = m.encode := rfl
  rw [hheader, hpayload, m.id_encode, m.code_encode, m.count_encode, if_pos m.query, dnsQuery]
  simp only [luaArithmetic, bind, Except.bind, Int.toNat_natCast, hloop, luaConcat, Except.map,
    Option.map_some, List.nil_append, List.append_nil]
  rw [key, List.append_assoc]
  rfl

end QueryMessage

/-- A query is stored with the right mnemonics if and only if it asks for no type behind the
third but AAAA. -/
theorem dnsProcess_mnemonics_iff (date : OsDate) (storage : DnsStorage) (packet : LuaPacket)
    (m : QueryMessage) :
    (∃ storage', dnsProcess date storage (m.sentIn packet) = .ok storage' ∧
        storage' (m.key packet) =
          some ⟨listed RecordType.mnemonic m.questions, packet.tvSec, packet.tvUsec⟩) ↔
      ∀ q ∈ m.questions, q.qtype ∈ [.a, .ns, .md, .aaaa] := by
  have hnames := listed_inj RecordType.blank_notMem_shown RecordType.blank_notMem_mnemonic m.questions
  simp only [RecordType.shown_eq_iff] at hnames
  rw [← hnames, m.dnsProcess_sentIn]
  constructor
  · rintro ⟨storage', hstored, hentry⟩
    cases hstored
    rw [Function.update_self, Option.some.injEq, DnsQuery.mk.injEq] at hentry
    exact hentry.1
  · intro hlisted
    refine ⟨_, rfl, ?_⟩
    rw [Function.update_self, hlisted]

theorem no_labels : ∀ label ∈ ([] : List LuaString), 1 ≤ label.length ∧ label.length ≤ 255 := by
  simp

theorem query_code : (0x0100 : UInt16).toNat < 2 ^ 15 := by decide

theorem one_counted (q : Question) : [q].length < 2 ^ 16 := by simp

def cnameQuery : QueryMessage where
  id := 1
  code := 0x0100
  query := query_code
  questions := [⟨[], no_labels, .cname, 1⟩]
  counted := one_counted _
  acount := 0
  nscount := 0
  arcount := 0
  records := []

/-- CNAME is stored as MF. -/
theorem cnameQuery_stored :
    ¬∃ storage', dnsProcess epochDate (fun _ => none)
        (cnameQuery.sentIn (pushPacketToLuaState (datagram []).toUserPacket)) = .ok storage' ∧
      storage' (cnameQuery.key (pushPacketToLuaState (datagram []).toUserPacket)) =
        some ⟨listed RecordType.mnemonic cnameQuery.questions, 0, 0⟩ := by
  rw [cnameQuery.dnsProcess_sentIn]
  rintro ⟨storage', hstored, hentry⟩
  cases hstored
  rw [Function.update_self, Option.some.injEq, DnsQuery.mk.injEq] at hentry
  exact absurd hentry.1 (by decide +kernel)

end Tcpkit
