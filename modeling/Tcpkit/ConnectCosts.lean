import Tcpkit.CivilTime
import Tcpkit.ScriptErrors

/-! The lines that `tcp-connect.lua` prints. The script keeps one record for each client and
server, that of the first SYN without payload since the server last answered without payload. -/

namespace Tcpkit

open DecimalText

/-- What `string.format` is given for a line. -/
structure ConnectLine where
  timeStr : LuaString
  key : LuaString
  count : Int
  sec : Int
  usec : Int
  deriving DecidableEq

/-- `string.format("%26s %47s %6d %12d.%06d", ...)`. -/
def ConnectLine.text (l : ConnectLine) : Except LuaError LuaString := do
  let count ← formatSigned 4 6 false (some l.count)
  let sec ← formatSigned 5 12 false (some l.sec)
  let usec ← formatSigned 6 6 true (some l.usec)
  return padded 26 0x20 l.timeStr ++ luaLiteral " " ++ padded 47 0x20 l.key ++ luaLiteral " " ++
    count ++ luaLiteral " " ++ sec ++ luaLiteral "." ++ usec

def connectLine (date : OsDate) (first : SynRecord) (packet : LuaPacket) :
    Except LuaError ConnectLine := do
  let timeStr ← luaConcat [date packet.tvSec, some (luaLiteral "."), some (luaText packet.tvUsec)]
  let borrow := packet.tvUsec < first.tvUsec
  let tvSec := if borrow then luaNumber (packet.tvSec - 1) else packet.tvSec
  let tvUsec := if borrow then luaNumber (packet.tvUsec + 1000000) else packet.tvUsec
  return {
    timeStr
    key := flowKey packet.dip packet.dport packet.sip packet.sport
    count := first.count
    sec := luaNumber (tvSec - first.tvSec)
    usec := luaNumber (tvUsec - first.tvUsec) }

def answerSynPrint (date : OsDate) (synTable : SynTable) (packet : LuaPacket) :
    Except LuaError (SynTable × Option ConnectLine) := do
  let key := flowKey packet.dip packet.dport packet.sip packet.sport
  match synTable key with
  | none => return (Function.update synTable key none, none)
  | some first =>
    if first.count ≥ 0 then
      let line ← connectLine date first packet
      let _ ← line.text
      return (Function.update synTable key none, some line)
    else return (Function.update synTable key none, none)

/-- `process` of `tcp-connect.lua` with the line that it prints, if it prints one. -/
def connectPrint (date : OsDate) (synTable : SynTable) (packet : LuaPacket) :
    Except LuaError (SynTable × Option ConnectLine) :=
  if packet.size ≠ 0 then .ok (synTable, none)
  else if packet.flags = some 2 then .ok (recordSyn synTable packet, none)
  else do
    let answered ← if packet.flags = some 18 then .ok true
      else (bit32Band packet.flags 4).map fun n => n ≠ 0
    if answered then answerSynPrint date synTable packet else return (synTable, none)

def connectLineAfter (date : OsDate) (before : List Packet) (p : Packet) :
    Except LuaError (Option ConnectLine) := do
  let synTable ← runScript (connectProcess date) (fun _ => none) before
  let r ← connectPrint date synTable (pushPacketToLuaState p.toUserPacket)
  return r.2

section Erasure

variable (date : OsDate)

theorem reportConnect_eq (first : SynRecord) (packet : LuaPacket) :
    reportConnect date first packet =
      (connectLine date first packet).bind fun line => line.text.map fun _ => () := by
  rw [reportConnect, connectLine]
  cases luaConcat [date packet.tvSec, some (luaLiteral "."), some (luaText packet.tvUsec)] with
  | error e => rfl
  | ok timeStr =>
    simp only [ConnectLine.text, bind, Except.bind, pure, Except.pure]
    split
    · rfl
    · split
      · rfl
      · split <;> rfl

theorem answerSyn_eq (synTable : SynTable) (packet : LuaPacket) :
    answerSyn date synTable packet = (answerSynPrint date synTable packet).map Prod.fst := by
  rw [answerSyn, answerSynPrint]
  cases synTable (flowKey packet.dip packet.dport packet.sip packet.sport) with
  | none => rfl
  | some first =>
    by_cases hcount : first.count ≥ 0
    · simp only [if_pos hcount, reportConnect_eq, bind, Except.bind, pure, Except.pure]
      cases connectLine date first packet with
      | error e => rfl
      | ok line =>
        dsimp only
        cases line.text <;> rfl
    · simp only [if_neg hcount]
      rfl

/-- Without the line `connectPrint` is the script's `process`. -/
theorem connectProcess_eq (synTable : SynTable) (packet : LuaPacket) :
    connectProcess date synTable packet = (connectPrint date synTable packet).map Prod.fst := by
  rw [connectProcess, connectPrint]
  by_cases hsize : packet.size ≠ 0
  · rw [if_pos hsize, if_pos hsize]
    rfl
  · rw [if_neg hsize, if_neg hsize]
    by_cases hsyn : packet.flags = some 2
    · rw [if_pos hsyn, if_pos hsyn]
      rfl
    · rw [if_neg hsyn, if_neg hsyn]
      by_cases hack : packet.flags = some 18
      · rw [if_pos hack, if_pos hack]
        exact answerSyn_eq date synTable packet
      · rw [if_neg hack, if_neg hack]
        cases bit32Band packet.flags 4 with
        | error e => rfl
        | ok n =>
          by_cases hreset : n = 0
          · subst hreset
            rfl
          · simp only [Except.map, bind, Except.bind, ne_eq, hreset, not_false_eq_true,
              decide_true, if_true]
            exact answerSyn_eq date synTable packet

end Erasure

section History

/-- A SYN from the client to the server, with or without payload. -/
def Packet.Opens (client server : Endpoint) (p : Packet) : Prop :=
  p.flags = 2 ∧ p.src = client ∧ p.dst = server

instance (client server : Endpoint) (p : Packet) : Decidable (p.Opens client server) :=
  inferInstanceAs (Decidable (_ ∧ _))

/-- A reset from the server to the client, with or without payload. -/
def Packet.Resets (client server : Endpoint) (p : Packet) : Prop :=
  p.flags &&& 4 ≠ 0 ∧ p.src = server ∧ p.dst = client

instance (client server : Endpoint) (p : Packet) : Decidable (p.Resets client server) :=
  inferInstanceAs (Decidable (_ ∧ _))

/-- A SYN-ACK or a reset from the server to the client that the script does not skip. -/
def Packet.Settles (client server : Endpoint) (p : Packet) : Prop :=
  p.payloadSize = 0 ∧ (p.flags = 18 ∨ p.flags &&& 4 ≠ 0) ∧ p.src = server ∧ p.dst = client

instance (client server : Endpoint) (p : Packet) : Decidable (p.Settles client server) :=
  inferInstanceAs (Decidable (_ ∧ _))

/-- What a client and a server have exchanged: `opened` are the SYNs from the client to the server since
the two were last reported or reset, and `held` those without payload since the server last answered
without payload. -/
structure ConnHistory where
  opened : List Packet
  held : List Packet

/-- An answer is reported where a SYN is held. -/
def ConnHistory.next (client server : Endpoint) (h : ConnHistory) (p : Packet) : ConnHistory where
  opened :=
    if p.Resets client server ∨ p.Settles client server ∧ h.held ≠ [] then []
    else if p.Opens client server then h.opened ++ [p]
    else h.opened
  held :=
    if p.Settles client server then []
    else if p.payloadSize = 0 ∧ p.Opens client server then h.held ++ [p]
    else h.held

def connHistory (client server : Endpoint) (packets : List Packet) : ConnHistory :=
  packets.foldl (ConnHistory.next client server) ⟨[], []⟩

/-- The first SYN without payload is the record of the script, and the others with its sequence number
are counted. -/
def heldSyns (client server : Endpoint) (packets : List Packet) : List Packet :=
  (connHistory client server packets).held

/-- The SYNs with the sequence number that `p` acknowledges, since the two were last reported or reset. -/
def acknowledgedSyns (before : List Packet) (p : Packet) : List Packet :=
  (connHistory p.dst p.src before).opened.filter fun q => q.seq = p.ack - 1

def repeats (first : Packet) (rest : List Packet) : Nat := rest.countP fun p => p.seq = first.seq

/-- The record of the script for the SYNs that are open. Doubles count up to `2 ^ 53`. -/
def synRecord : List Packet → Option SynRecord
  | [] => none
  | first :: rest =>
    some ⟨some first.seq.toNat, min (2 ^ 53) (repeats first rest), first.tv.tvSec, first.tv.tvUsec⟩

def connKey (client server : Endpoint) : LuaString :=
  flowKey (inetNtoa client.ip).bytes client.port.toNat (inetNtoa server.ip).bytes server.port.toNat

/-- Seconds and microseconds that a double holds, as do those of every capture. -/
structure Packet.Timed (p : Packet) : Prop where
  sec : p.tv.tvSec.natAbs < 10 ^ 14
  usec : p.tv.tvUsec.natAbs < 10 ^ 14

theorem Packet.Timed.pushed_tvSec {p : Packet} (hp : p.Timed) :
    (pushPacketToLuaState p.toUserPacket).tvSec = p.tv.tvSec :=
  luaNumber_of_lt (hp.sec.trans (by decide))

theorem Packet.Timed.pushed_tvUsec {p : Packet} (hp : p.Timed) :
    (pushPacketToLuaState p.toUserPacket).tvUsec = p.tv.tvUsec :=
  luaNumber_of_lt (hp.usec.trans (by decide))

theorem flowKey_pushed (p : Packet) :
    flowKey (pushPacketToLuaState p.toUserPacket).sip (pushPacketToLuaState p.toUserPacket).sport
      (pushPacketToLuaState p.toUserPacket).dip (pushPacketToLuaState p.toUserPacket).dport =
        connKey p.src p.dst := rfl

theorem flowKey_answered (p : Packet) :
    flowKey (pushPacketToLuaState p.toUserPacket).dip (pushPacketToLuaState p.toUserPacket).dport
      (pushPacketToLuaState p.toUserPacket).sip (pushPacketToLuaState p.toUserPacket).sport =
        connKey p.dst p.src := rfl

theorem blank_notMem_endpointName (e : Endpoint) : (0x20 : UInt8) ∉ (endpointName e).bytes := by
  have hd (n : Nat) : (0x20 : UInt8) ∉ (CString.decimal n).bytes := notMem_decimal (by decide) n
  simp only [endpointName, inetNtoa, CString.joined_bytes, List.mem_append, List.mem_cons, not_or]
  exact ⟨⟨hd _, by decide, hd _, by decide, hd _, by decide, hd _⟩, by decide, hd _⟩

theorem connKey_eq (client server : Endpoint) :
    connKey client server =
      (endpointName client).bytes ++ (luaLiteral " => " ++ (endpointName server).bytes) := by
  have hcolon : luaLiteral ":" = [0x3a] := by decide +kernel
  have hport (n : Nat) : luaText n = (CString.decimal n).bytes := if_neg (by omega)
  simp [connKey, flowKey, hcolon, hport, endpointName, CString.joined_bytes]

theorem connKey_inj {client server client' server' : Endpoint} :
    connKey client server = connKey client' server' ↔ client = client' ∧ server = server' := by
  have harrow : luaLiteral " => " = [0x20, 0x3d, 0x3e, 0x20] := by decide +kernel
  have hname (e e' : Endpoint) : (endpointName e).bytes = (endpointName e').bytes ↔ e = e' := by
    rw [← CString.ext_iff, endpointName_injective.eq_iff]
  rw [connKey_eq, connKey_eq, append_inj_of_notMem (blank_notMem_endpointName client)
    (blank_notMem_endpointName client') (by simp [harrow]) (by simp [harrow]),
    List.append_cancel_left_eq, hname, hname]

variable {date : OsDate} {p : Packet} {t t' : SynTable}

theorem bit32Band_flags (flags : UInt8) :
    bit32Band (some (flags.toNat : Int)) 4 = .ok (flags &&& 4).toNat := by
  have hof : bit32Of flags.toNat = flags.toNat := by
    have := flags.toNat_lt
    rw [bit32Of]
    omega
  simp [bit32Band, luaCheckNumber, Except.map, hof]

theorem connectPrint_cases (htcp : p.isTcp = true) {line : Option ConnectLine}
    (h : connectPrint date t (pushPacketToLuaState p.toUserPacket) = .ok (t', line)) :
    ((p.payloadSize = 0 → p.flags ≠ 2 ∧ p.flags ≠ 18 ∧ p.flags &&& 4 = 0) ∧ t' = t ∧ line = none) ∨
    (p.payloadSize = 0 ∧ p.flags = 2 ∧ t' = recordSyn t (pushPacketToLuaState p.toUserPacket) ∧
      line = none) ∨
    (p.payloadSize = 0 ∧ (p.flags = 18 ∨ p.flags &&& 4 ≠ 0) ∧
      answerSynPrint date t (pushPacketToLuaState p.toUserPacket) = .ok (t', line)) := by
  have hflags : (pushPacketToLuaState p.toUserPacket).flags = some (p.flags.toNat : Int) :=
    if_pos htcp
  have heq (n : UInt8) : (some (p.flags.toNat : Int) = some (n.toNat : Int)) ↔ p.flags = n := by
    rw [Option.some.injEq, Nat.cast_inj, UInt8.toNat_inj]
  have hsynIff : (some (p.flags.toNat : Int)) = some 2 ↔ p.flags = 2 := heq 2
  have hackIff : (some (p.flags.toNat : Int)) = some 18 ↔ p.flags = 18 := heq 18
  rw [connectPrint, pushed_size, hflags] at h
  by_cases hsize : p.payloadSize = 0
  · rw [if_neg (not_not.mpr hsize)] at h
    by_cases hsyn : p.flags = 2
    · rw [if_pos (hsynIff.mpr hsyn)] at h
      cases h
      exact .inr (.inl ⟨hsize, hsyn, rfl, rfl⟩)
    · rw [if_neg (fun hh => hsyn (hsynIff.mp hh))] at h
      by_cases hack : p.flags = 18
      · rw [if_pos (hackIff.mpr hack)] at h
        exact .inr (.inr ⟨hsize, .inl hack, h⟩)
      · rw [if_neg (fun hh => hack (hackIff.mp hh)), bit32Band_flags] at h
        by_cases hreset : p.flags &&& 4 = 0
        · rw [hreset] at h
          cases h
          exact .inl ⟨fun _ => ⟨hsyn, hack, hreset⟩, rfl, rfl⟩
        · have hbit : (p.flags &&& 4).toNat ≠ 0 := fun hh => hreset (UInt8.toNat_inj.mp hh)
          simp only [Except.map, bind, Except.bind, ne_eq, hbit, not_false_eq_true, decide_true,
            if_true] at h
          exact .inr (.inr ⟨hsize, .inr hreset, h⟩)
  · rw [if_pos hsize] at h
    cases h
    exact .inl ⟨fun hh => absurd hh hsize, rfl, rfl⟩

/-- An answer removes the record, and prints a line for it where there is one. -/
theorem answerSynPrint_cases {packet : LuaPacket} {line : Option ConnectLine}
    (h : answerSynPrint date t packet = .ok (t', line)) :
    t' = Function.update t (flowKey packet.dip packet.dport packet.sip packet.sport) none ∧
      (t (flowKey packet.dip packet.dport packet.sip packet.sport) = none ∧ line = none ∨
      ∃ first, t (flowKey packet.dip packet.dport packet.sip packet.sport) = some first ∧
        (first.count < 0 ∧ line = none ∨ ∃ l, line = some l ∧
          connectLine date first packet = .ok l)) := by
  rw [answerSynPrint] at h
  cases hfound : t (flowKey packet.dip packet.dport packet.sip packet.sport) with
  | none =>
    rw [hfound] at h
    cases h
    exact ⟨rfl, .inl ⟨rfl, rfl⟩⟩
  | some first =>
    rw [hfound] at h
    by_cases hcount : first.count ≥ 0
    · simp only [if_pos hcount] at h
      obtain ⟨l, hl, h⟩ := bind_eq_ok h
      obtain ⟨text, -, h⟩ := bind_eq_ok h
      cases h
      exact ⟨rfl, .inr ⟨first, rfl, .inr ⟨l, rfl, hl⟩⟩⟩
    · simp only [if_neg hcount] at h
      cases h
      exact ⟨rfl, .inr ⟨first, rfl, .inl ⟨by omega, rfl⟩⟩⟩

variable {client server : Endpoint} {before : List Packet}

theorem heldSyns_concat (client server : Endpoint) (before : List Packet) (p : Packet) :
    heldSyns client server (before ++ [p]) =
      if p.Settles client server then [] else
        if p.payloadSize = 0 ∧ p.Opens client server then heldSyns client server before ++ [p]
        else heldSyns client server before := by
  rw [heldSyns, connHistory, List.foldl_append]
  rfl

theorem not_settles_of_syn (h : p.flags = 2) : ¬p.Settles client server := by
  rintro ⟨-, hack | hreset, -⟩
  · rw [h] at hack
    exact absurd hack (by decide)
  · rw [h] at hreset
    exact absurd hreset (by decide)

theorem not_opens_of_answer (h : p.flags = 18 ∨ p.flags &&& 4 ≠ 0) : ¬p.Opens client server := by
  rintro ⟨hsyn, -⟩
  rw [hsyn] at h
  exact absurd h (by decide)

theorem recordSyn_of_ne {key : LuaString} (hne : key ≠ connKey p.src p.dst) :
    recordSyn t (pushPacketToLuaState p.toUserPacket) key = t key := by
  rw [recordSyn, flowKey_pushed]
  cases t (connKey p.src p.dst) with
  | none => exact Function.update_of_ne hne _ _
  | some syn =>
    by_cases hseq : syn.seq = (pushPacketToLuaState p.toUserPacket).seq
    · simp only [if_pos hseq]
      exact Function.update_of_ne hne _ _
    · simp only [if_neg hseq]

theorem recordSyn_at {syns : List Packet} (hp : p.Timed) (htcp : p.isTcp = true)
    (ht : t (connKey p.src p.dst) = synRecord syns) :
    recordSyn t (pushPacketToLuaState p.toUserPacket) (connKey p.src p.dst) =
      synRecord (syns ++ [p]) := by
  have hseq : (pushPacketToLuaState p.toUserPacket).seq = some (p.seq.toNat : Int) := if_pos htcp
  rw [recordSyn, flowKey_pushed, hseq, ht]
  cases syns with
  | nil =>
    simp only [synRecord, Function.update_self, hp.pushed_tvSec, hp.pushed_tvUsec]
    rfl
  | cons first rest =>
    have hrepeats : repeats first (rest ++ [p]) = repeats first rest +
        if p.seq = first.seq then 1 else 0 := by
      simp [repeats, List.countP_append, List.countP_singleton]
    have hsame : (some (first.seq.toNat : Int) = some (p.seq.toNat : Int)) ↔ p.seq = first.seq := by
      rw [Option.some.injEq, Nat.cast_inj, UInt32.toNat_inj, eq_comm]
    simp only [synRecord, List.cons_append, hrepeats, hsame]
    by_cases hs : p.seq = first.seq
    · rw [if_pos hs, if_pos hs, Function.update_self, luaNumber_succ]
    · rw [if_neg hs, if_neg hs]
      exact ht

/-- The table holds the records of the SYNs that are held. -/
def SynTable.Follows (t : SynTable) (packets : List Packet) : Prop :=
  ∀ client server, t (connKey client server) = synRecord (heldSyns client server packets)

theorem SynTable.Follows.next (ht : t.Follows before) (hp : p.Timed) (htcp : p.isTcp = true)
    {line : Option ConnectLine}
    (h : connectPrint date t (pushPacketToLuaState p.toUserPacket) = .ok (t', line)) :
    t'.Follows (before ++ [p]) := by
  intro client server
  rw [heldSyns_concat]
  obtain ⟨hskip, rfl, -⟩ | ⟨hsize, hsyn, rfl, -⟩ | ⟨hsize, hanswer, hprint⟩ :=
    connectPrint_cases htcp h
  · have hsettles : ¬p.Settles client server := by
      rintro ⟨hsize, hack | hreset, -⟩
      · exact (hskip hsize).2.1 hack
      · exact hreset (hskip hsize).2.2
    have hopens : ¬(p.payloadSize = 0 ∧ p.Opens client server) := fun ho => (hskip ho.1).1 ho.2.1
    rw [if_neg hsettles, if_neg hopens]
    exact ht client server
  · rw [if_neg (not_settles_of_syn hsyn)]
    by_cases hopens : p.Opens client server
    · obtain ⟨-, rfl, rfl⟩ := hopens
      rw [if_pos ⟨hsize, hsyn, rfl, rfl⟩]
      exact recordSyn_at hp htcp (ht _ _)
    · rw [if_neg fun ho => hopens ho.2, recordSyn_of_ne, ht]
      intro hkey
      obtain ⟨hclient, hserver⟩ := connKey_inj.mp hkey
      exact hopens ⟨hsyn, hclient.symm, hserver.symm⟩
  · obtain ⟨rfl, -⟩ := answerSynPrint_cases hprint
    rw [flowKey_answered]
    by_cases hsettles : p.Settles client server
    · obtain ⟨-, -, rfl, rfl⟩ := hsettles
      rw [if_pos ⟨hsize, hanswer, rfl, rfl⟩, Function.update_self]
      rfl
    · rw [if_neg hsettles, if_neg fun ho => not_opens_of_answer hanswer ho.2,
        Function.update_of_ne, ht]
      intro hkey
      obtain ⟨hclient, hserver⟩ := connKey_inj.mp hkey
      exact hsettles ⟨hsize, hanswer, hserver.symm, hclient.symm⟩

theorem SynTable.Follows.run {packets : List Packet} (ht : t.Follows before)
    (h : ∀ q ∈ packets, q.Timed ∧ q.isTcp = true)
    (hrun : packets.foldlM
      (fun t q => connectProcess date t (pushPacketToLuaState q.toUserPacket)) t = .ok t') :
    t'.Follows (before ++ packets) := by
  induction packets generalizing t before with
  | nil =>
    cases hrun
    rw [List.append_nil]
    exact ht
  | cons q packets ih =>
    rw [List.foldlM_cons] at hrun
    obtain ⟨t₁, hstep, hrest⟩ := bind_eq_ok hrun
    obtain ⟨hq, hpackets⟩ := List.forall_mem_cons.mp h
    rw [connectProcess_eq] at hstep
    cases hprint : connectPrint date t (pushPacketToLuaState q.toUserPacket) with
    | error e =>
      rw [hprint] at hstep
      cases hstep
    | ok r =>
      rw [hprint] at hstep
      cases hstep
      rw [List.append_cons]
      exact ih (ht.next hq.1 hq.2 hprint) hpackets hrest

theorem follows_start : SynTable.Follows (fun _ => none) [] := fun _ _ => rfl

theorem mem_of_mem_heldSyns {packets : List Packet} (h : p ∈ heldSyns client server packets) :
    p ∈ packets := by
  induction packets using List.reverseRecOn with
  | nil => cases h
  | append_singleton packets q ih =>
    rw [heldSyns_concat] at h
    split at h
    · cases h
    · split at h
      · rcases List.mem_append.mp h with hm | hm
        · exact List.mem_append_left _ (ih hm)
        · exact List.mem_append_right _ hm
      · exact List.mem_append_left _ (ih h)

end History

section Text

theorem padded_append (width : Nat) (fill : UInt8) (s r : LuaString) :
    padded width fill s ++ r = padded (width + r.length) fill (s ++ r) := by
  rw [padded, padded, List.length_append, Nat.add_sub_add_right, List.append_assoc]

/-- `"%12d.%06d"` of whole seconds and the microseconds above them. -/
def costText (us : Int) : LuaString := padded 19 0x20 (fixedText 6 (decide (us < 0)) us.natAbs)

/-- The text of a line that tells the time from `first` to `p` and the number of retries. -/
structure ConnectLine.Tells (l : ConnectLine) (first p : Packet) (retries : Nat) : Prop where
  key : l.key = connKey p.dst p.src
  text : l.text = .ok (padded 26 0x20 l.timeStr ++ luaLiteral " " ++
    padded 47 0x20 (connKey p.dst p.src) ++ luaLiteral " " ++
    padded 6 0x20 (CString.decimal retries).bytes ++ luaLiteral " " ++
    costText (tvDeltaUs p.tv first.tv))

theorem formatSigned_of_lt {index width : Nat} {zeros : Bool} {n : Int} (h : n.natAbs < 2 ^ 63) :
    formatSigned index width zeros (some n) = .ok (if zeros then
      if n < 0 then 0x2d :: padded (width - 1) 0x30 (luaText (-n)) else padded width 0x30 (luaText n)
      else padded width 0x20 (luaText n)) := by
  have hrange : -2 ^ 63 < n ∧ n < 2 ^ 63 := by omega
  simp only [formatSigned, luaCheckNumber, Except.bind, hrange, and_self, if_true]

theorem luaText_natCast (n : Nat) : luaText n = (CString.decimal n).bytes := if_neg (by omega)

/-- Whole seconds carry the sign, so a time that is negative is told where it has no microseconds. -/
theorem costText_eq {sec usec : Int} (hlow : 0 ≤ usec) (hhigh : usec < 1000000)
    (hsign : 0 ≤ sec * 1000000 + usec ∨ (1000000 : Int) ∣ sec * 1000000 + usec) :
    padded 12 0x20 (luaText sec) ++ luaLiteral "." ++ padded 6 0x30 (luaText usec) =
      costText (sec * 1000000 + usec) := by
  obtain ⟨u, rfl⟩ := Int.eq_ofNat_of_zero_le hlow
  have hdot : luaLiteral "." = [0x2e] := by decide +kernel
  have hzeros : padded 6 0x30 (luaText u) = zeroPadded 6 u := by
    rw [luaText_natCast, zeroPadded, if_neg (by omega)]
    rfl
  have hlength : (padded 6 0x30 (luaText u)).length = 6 := by
    have hle : (CString.decimal u).bytes.length ≤ 6 :=
      CString.strlen_decimal_le (by decide) (by omega)
    rw [luaText_natCast, padded, List.length_append, List.length_replicate]
    omega
  rw [List.append_assoc, padded_append, List.length_append, hlength, hdot, hzeros, costText]
  congr 1
  rw [fixedText]
  rcases lt_or_ge (sec * 1000000 + u) 0 with hneg | hpos
  · have hu : u = 0 := by omega
    have hsec : (sec * 1000000 + u).natAbs / 10 ^ 6 = sec.natAbs := by omega
    have husec : (sec * 1000000 + u).natAbs % 10 ^ 6 = u := by omega
    rw [decide_eq_true hneg, if_pos rfl, hsec, husec, luaText, if_pos (by omega)]
    rfl
  · have hsec : (sec * 1000000 + u).natAbs / 10 ^ 6 = sec.natAbs := by omega
    have husec : (sec * 1000000 + u).natAbs % 10 ^ 6 = u := by omega
    rw [decide_eq_false (by omega), if_neg Bool.false_ne_true, hsec, husec, luaText,
      if_neg (by omega)]
    rfl

end Text

/-- The microseconds differ by less than a second and the time is not negative, or is negative by
whole seconds. -/
structure Timeval.Told (tv tv' : Timeval) : Prop where
  low : -1000000 ≤ tv.tvUsec - tv'.tvUsec
  high : tv.tvUsec - tv'.tvUsec < 1000000
  sign : 0 ≤ tvDeltaUs tv tv' ∨ (1000000 : Int) ∣ tvDeltaUs tv tv'

section Lines

variable {date : OsDate} {first p : Packet} {retries : Nat} {l : ConnectLine}

/-- With the borrow the microseconds are those above the whole seconds. -/
theorem connectLine_values (hfirst : first.Timed) (hp : p.Timed)
    (h : connectLine date ⟨some first.seq.toNat, retries, first.tv.tvSec, first.tv.tvUsec⟩
      (pushPacketToLuaState p.toUserPacket) = .ok l) :
    l.key = connKey p.dst p.src ∧ l.count = retries ∧
      l.sec * 1000000 + l.usec = tvDeltaUs p.tv first.tv ∧
      l.sec.natAbs < 2 ^ 63 ∧ l.usec.natAbs < 2 ^ 63 ∧
      (p.tv.Told first.tv → 0 ≤ l.usec ∧ l.usec < 1000000) := by
  have hs := hfirst.sec
  have hu := hfirst.usec
  have hs' := hp.sec
  have hu' := hp.usec
  obtain ⟨timeStr, -, h⟩ := bind_eq_ok h
  cases h
  refine ⟨rfl, rfl, ?_⟩
  simp only [hp.pushed_tvSec, hp.pushed_tvUsec]
  by_cases hb : p.tv.tvUsec < first.tv.tvUsec
  · have hborrow := luaNumber_of_lt (n := p.tv.tvSec - 1) (by omega)
    have hcarry := luaNumber_of_lt (n := p.tv.tvUsec + 1000000) (by omega)
    have hsec := luaNumber_of_lt (n := p.tv.tvSec - 1 - first.tv.tvSec) (by omega)
    have husec := luaNumber_of_lt (n := p.tv.tvUsec + 1000000 - first.tv.tvUsec) (by omega)
    simp only [if_pos hb, hborrow, hcarry, hsec, husec]
    refine ⟨?_, by omega, by omega, fun htold => ?_⟩
    · rw [tvDeltaUs]
      ring
    · have hlow := htold.low
      omega
  · have hsec := luaNumber_of_lt (n := p.tv.tvSec - first.tv.tvSec) (by omega)
    have husec := luaNumber_of_lt (n := p.tv.tvUsec - first.tv.tvUsec) (by omega)
    simp only [if_neg hb, hsec, husec]
    refine ⟨rfl, by omega, by omega, fun htold => ?_⟩
    have hhigh := htold.high
    omega

theorem tells_of_connectLine (hfirst : first.Timed) (hp : p.Timed) (htold : p.tv.Told first.tv)
    (hretries : retries ≤ 2 ^ 53)
    (h : connectLine date ⟨some first.seq.toNat, retries, first.tv.tvSec, first.tv.tvUsec⟩
      (pushPacketToLuaState p.toUserPacket) = .ok l) : l.Tells first p retries := by
  obtain ⟨hkey, hcount, hcost, hsec, husec, hcarried⟩ := connectLine_values hfirst hp h
  obtain ⟨hlow, hhigh⟩ := hcarried htold
  refine ⟨hkey, ?_⟩
  have hsmall : l.count.natAbs < 2 ^ 63 := by omega
  have hsign := htold.sign
  rw [← hcost] at hsign ⊢
  rw [ConnectLine.text, formatSigned_of_lt hsmall, formatSigned_of_lt hsec, formatSigned_of_lt husec,
    ← costText_eq hlow hhigh hsign, hkey, hcount, luaText_natCast]
  simp [Bool.false_eq_true, not_lt.mpr hlow, bind, Except.bind, pure, Except.pure]

/-- A line is printed for an answer where a SYN is held, and is made from those SYNs. -/
theorem line_of_held {before : List Packet} (h : ∀ q ∈ before ++ [p], q.Timed ∧ q.isTcp = true)
    {line : Option ConnectLine} (hline : connectLineAfter date before p = .ok line) :
    (line.isSome ↔ p.Settles p.dst p.src ∧ heldSyns p.dst p.src before ≠ []) ∧
      ∀ l, line = some l → ∃ first rest, heldSyns p.dst p.src before = first :: rest ∧
        connectLine date ⟨some first.seq.toNat, (min (2 ^ 53) (repeats first rest) : Nat),
          first.tv.tvSec,
          first.tv.tvUsec⟩ (pushPacketToLuaState p.toUserPacket) = .ok l := by
  obtain ⟨hbefore, hlast⟩ := List.forall_mem_append.mp h
  obtain ⟨hp, htcp⟩ := hlast p (List.mem_singleton_self p)
  obtain ⟨t, hrun, hline⟩ := bind_eq_ok hline
  obtain ⟨⟨t', line'⟩, hprint, hline⟩ := bind_eq_ok hline
  cases hline
  have ht : t.Follows before := follows_start.run hbefore hrun
  obtain ⟨hskip, -, rfl⟩ | ⟨-, hsyn, -, rfl⟩ | ⟨hsize, hanswer, hprint⟩ :=
    connectPrint_cases htcp hprint
  · refine ⟨⟨fun hsome => absurd hsome Bool.false_ne_true, ?_⟩, fun l hl => by cases hl⟩
    rintro ⟨⟨hsize, hack | hreset, -⟩, -⟩
    · exact absurd hack (hskip hsize).2.1
    · exact absurd (hskip hsize).2.2 hreset
  · exact ⟨⟨fun hsome => absurd hsome Bool.false_ne_true,
      fun hsettles => absurd hsettles.1 (not_settles_of_syn hsyn)⟩, fun l hl => by cases hl⟩
  · have hsettles : p.Settles p.dst p.src := ⟨hsize, hanswer, rfl, rfl⟩
    obtain ⟨-, hanswered⟩ := answerSynPrint_cases hprint
    rw [flowKey_answered, ht] at hanswered
    cases hheld : heldSyns p.dst p.src before with
    | nil =>
      rw [hheld] at hanswered
      obtain ⟨-, rfl⟩ | ⟨first, hfound, -⟩ := hanswered
      · exact ⟨⟨fun hsome => absurd hsome Bool.false_ne_true, fun hne => absurd rfl hne.2⟩,
          fun l hl => by cases hl⟩
      · cases hfound
    | cons first rest =>
      rw [hheld] at hanswered
      obtain ⟨hfound, -⟩ | ⟨record, hfound, hrecord⟩ := hanswered
      · cases hfound
      cases hfound
      obtain ⟨hcount, -⟩ | ⟨l, rfl, hl⟩ := hrecord
      · have hnonneg : (0 : Int) ≤ min (2 ^ 53) (repeats first rest : Int) := by positivity
        exact absurd hnonneg (not_le.mpr hcount)
      · refine ⟨⟨fun _ => ⟨hsettles, List.cons_ne_nil _ _⟩, fun _ => rfl⟩, ?_⟩
        rintro _ ⟨⟩
        refine ⟨first, rest, rfl, ?_⟩
        push_cast
        exact hl

end Lines

/-- The answer `p` acknowledges the attempt whose SYN is the first that is held, and no SYN of that
attempt was skipped or is held since before a reset. -/
structure Packet.AnswersHeld (before : List Packet) (p : Packet) : Prop where
  first : ∀ first ∈ (heldSyns p.dst p.src before).head?, first.seq = p.ack - 1 ∧ p.tv.Told first.tv
  same : (heldSyns p.dst p.src before).filter (fun q => q.seq = p.ack - 1) = acknowledgedSyns before p
  few : (acknowledgedSyns before p).length ≤ 2 ^ 53 + 1

/-- A line that is printed for `p` tells the time since the first SYN with the acknowledged sequence
number, and how often that one was repeated. -/
def LineMeasures (date : OsDate) (before : List Packet) (p : Packet) : Prop :=
  ∀ l, connectLineAfter date before p = .ok (some l) →
    ∃ first more, acknowledgedSyns before p = first :: more ∧ l.Tells first p more.length

/-- A segment between 10.0.0.1:40000 and 10.0.0.2:6379. -/
def segment (answer : Bool) (flags : UInt8) (seq ack : UInt32) (tv : Timeval)
    (payload : List UInt8) : Packet where
  flags := flags
  isTcp := true
  tv := tv
  ipSrc := if answer then 0x0200000a else 0x0100000a
  ipDst := if answer then 0x0100000a else 0x0200000a
  portSrc := if answer then 6379 else 40000
  portDst := if answer then 40000 else 6379
  window := 0
  seq := seq
  ack := ack
  size := UInt32.ofNat (54 + payload.length)
  payloadSize := payload.length
  wirePayloadSize := payload.length
  payload := payload
  nonneg := Int.natCast_nonneg _
  readable := Int.le_refl _
  allocs := Allocs.all

def utcDate : OsDate := fun t => some (utcTime t).dateTimeText

/-- An attempt that is reset, and another one whose SYN is repeated. -/
def resetAndRetry : List Packet :=
  [segment false 2 100 0 ⟨1700000000, 900000⟩ [], segment true 20 0 101 ⟨1700000001, 0⟩ [],
    segment false 2 200 0 ⟨1700000002, 900000⟩ [], segment false 2 200 0 ⟨1700000003, 900000⟩ []]

theorem not_lineMeasures {date : OsDate} {before : List Packet} {p : Packet} {l : ConnectLine}
    {first : Packet} {more : List Packet}
    (hline : connectLineAfter date before p = .ok (some l))
    (hacked : acknowledgedSyns before p = first :: more) (hno : ¬l.Tells first p more.length) :
    ¬LineMeasures date before p := by
  intro h
  obtain ⟨first', more', hacked', hl⟩ := h l hline
  rw [hacked] at hacked'
  cases hacked'
  exact hno hl

end Tcpkit
