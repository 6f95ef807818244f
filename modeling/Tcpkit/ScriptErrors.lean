import Tcpkit.DnsDecoder

/-! When the shipped scripts raise an error, over all runs of accepted packets. -/

namespace Tcpkit

/-- The payload size is an `int`, and the time is one that `..` writes in full and `localtime`
converts. -/
structure Packet.Printable (date : OsDate) (p : Packet) : Prop where
  size : p.payloadSize < 2 ^ 31
  sec : p.tv.tvSec.natAbs < 10 ^ 14
  usec : p.tv.tvUsec.natAbs < 10 ^ 14
  converts : (date p.tv.tvSec).isSome

def Packet.captured (p : Packet) : LuaString := p.payload.take p.payloadSize.toNat

/-- A DNS query carries all the questions that its header announces. -/
def Packet.CompleteQuery (p : Packet) : Prop :=
  12 ≤ p.captured.length → (be16 p.captured 2).toNat < 2 ^ 15 →
    Questions p.captured (be16 p.captured 4).toNat 12

theorem pushed_payload (p : Packet) : (pushPacketToLuaState p.toUserPacket).payload = p.captured := rfl

theorem pushed_size (p : Packet) : (pushPacketToLuaState p.toUserPacket).size = p.payloadSize := rfl

theorem Packet.length_captured (p : Packet) : (p.captured.length : Int) = p.payloadSize := by
  have := p.nonneg
  have := p.readable
  rw [captured, List.length_take]
  omega

theorem luaNumber_of_lt {n : Int} (h : n.natAbs < 2 ^ 53) : luaNumber n = n := by
  rw [luaNumber, toDouble_of_lt h, Int.sign_mul_natAbs]

theorem formatSigned_ok {n : Int} (index width : Nat) (zeros : Bool) (h : n.natAbs < 2 ^ 63) :
    ∃ text, formatSigned index width zeros (some n) = .ok text := by
  have hn : -2 ^ 63 < n ∧ n < 2 ^ 63 := by omega
  simp only [formatSigned, luaCheckNumber, Except.bind, if_pos hn]
  exact ⟨_, rfl⟩

theorem formatUnsigned_ok {n : Int} (index : Nat) (hn : 0 ≤ n ∧ n < 2 ^ 64) :
    ∃ text, formatUnsigned index (some n) = .ok text := by
  simp only [formatUnsigned, luaCheckNumber, Except.bind, if_pos hn]
  exact ⟨_, rfl⟩

theorem dateLine_ok {date : OsDate} {t : Int} (hdate : (date t).isSome) (usec : LuaString) :
    ∃ line, luaConcat [date t, some (luaLiteral "."), some usec] = .ok line := by
  obtain ⟨text, htext⟩ := Option.isSome_iff_exists.mp hdate
  exact (luaConcat_ok_iff _).mpr (by simp [htext])

namespace Packet.Printable

variable {date : OsDate} {p : Packet}

theorem pushed_tvSec (hp : p.Printable date) :
    (pushPacketToLuaState p.toUserPacket).tvSec = p.tv.tvSec :=
  luaNumber_of_lt (hp.sec.trans (by decide))

theorem pushed_sec (hp : p.Printable date) :
    (pushPacketToLuaState p.toUserPacket).tvSec.natAbs < 10 ^ 14 := by
  rw [hp.pushed_tvSec]
  exact hp.sec

theorem pushed_tvUsec (hp : p.Printable date) :
    (pushPacketToLuaState p.toUserPacket).tvUsec = p.tv.tvUsec :=
  luaNumber_of_lt (hp.usec.trans (by decide))

theorem pushed_usec (hp : p.Printable date) :
    (pushPacketToLuaState p.toUserPacket).tvUsec.natAbs < 10 ^ 14 := by
  rw [hp.pushed_tvUsec]
  exact hp.usec

theorem pushed_converts (hp : p.Printable date) :
    (date (pushPacketToLuaState p.toUserPacket).tvSec).isSome := by
  rw [hp.pushed_tvSec]
  exact hp.converts

end Packet.Printable

section Dns

variable {date : OsDate} (storage : DnsStorage) {packet : LuaPacket}

theorem bit32Rshift_word (n : UInt16) :
    bit32Rshift (some (n.toNat : Int)) 15 = .ok (n.toNat / 2 ^ 15) := by
  have hn := n.toNat_lt
  have hof : bit32Of n.toNat = n.toNat := by
    rw [bit32Of]
    omega
  simp only [bit32Rshift, luaCheckNumber, Except.map, hof, Nat.shiftRight_eq_div_pow]

theorem dnsProcess_header (hsize : (packet.payload.length : Int) = packet.size)
    (hlen : 12 ≤ packet.payload.length) :
    dnsProcess date storage packet =
      if (be16 packet.payload 2).toNat < 2 ^ 15 then
        dnsQuery storage packet (some (be16 packet.payload 0).toNat) (some (be16 packet.payload 4).toNat)
          (Decoder.reading packet.payload 12)
      else dnsResponse date storage packet (some (be16 packet.payload 0).toNat) := by
  have hnew : Decoder.new packet.payload packet.size = Decoder.reading packet.payload 0 := by
    rw [Decoder.new, ← hsize]
    rfl
  have hread := fun i (h : i + 2 ≤ 12) =>
    Decoder.readInt16_of_le (show i + 2 ≤ packet.payload.length by omega)
  rw [dnsProcess, if_neg (by omega), hnew]
  simp only [hread 0 (by decide), hread (0 + 2) (by decide), hread (0 + 2 + 2) (by decide),
    hread (0 + 2 + 2 + 2) (by decide), hread (0 + 2 + 2 + 2 + 2) (by decide),
    hread (0 + 2 + 2 + 2 + 2 + 2) (by decide), bind, Except.bind, bit32Rshift_word]
  exact if_congr (Nat.div_eq_zero_iff_lt (by decide)) rfl rfl

theorem dnsQuery_ok_iff (n : Nat) (id : Int) (p : LuaString) (i : Nat) :
    (∃ s, dnsQuery storage packet (some id) (some n) (Decoder.reading p i) = .ok s) ↔ Questions p n i := by
  rw [← questionLoop_ok_iff n p i []]
  constructor
  · rintro ⟨s, hs⟩
    obtain ⟨domains, hdomains, -⟩ := bind_eq_ok hs
    exact ⟨domains, hdomains⟩
  · rintro ⟨domains, hdomains⟩
    simp only [dnsQuery, luaArithmetic, bind, Except.bind, Int.toNat_natCast, hdomains, luaConcat,
      Option.map_some, Except.map]
    exact ⟨_, rfl⟩

theorem dnsResponse_ok (id : Int) (hdate : (date packet.tvSec).isSome)
    (husec : packet.tvUsec.natAbs < 2 ^ 63) :
    ∃ s, dnsResponse date storage packet (some id) = .ok s := by
  obtain ⟨usec, hformat⟩ := formatSigned_ok 2 6 true husec
  obtain ⟨line, hline⟩ := dateLine_ok hdate usec
  obtain ⟨key, hkey⟩ := (luaConcat_ok_iff [some (flowKey packet.dip packet.dport packet.sip packet.sport),
    some (luaLiteral " "), some (luaText id)]).mpr (by simp)
  rw [dnsResponse, Option.map_some, hkey]
  cases hstored : storage key with
  | none => exact ⟨storage, by simp [bind, Except.bind, hstored, pure, Except.pure]⟩
  | some query =>
    exact ⟨Function.update storage key none,
      by simp [bind, Except.bind, hstored, hformat, hline, pure, Except.pure]⟩

/-- A query that is cut short raises, whatever is stored. -/
theorem dnsProcess_ok_iff {p : Packet} (hp : p.Printable date) :
    (∃ s, dnsProcess date storage (pushPacketToLuaState p.toUserPacket) = .ok s) ↔ p.CompleteQuery := by
  have hsize := p.length_captured
  by_cases hlen : 12 ≤ p.captured.length
  · rw [dnsProcess_header storage hsize hlen, pushed_payload]
    by_cases hcode : (be16 p.captured 2).toNat < 2 ^ 15
    · rw [if_pos hcode, dnsQuery_ok_iff]
      exact ⟨fun h _ _ => h, fun h => h hlen hcode⟩
    · rw [if_neg hcode]
      exact ⟨fun _ _ h => absurd h hcode, fun _ =>
        dnsResponse_ok storage _ hp.pushed_converts (hp.pushed_usec.trans (by decide))⟩
  · rw [dnsProcess, pushed_size, if_pos (by omega)]
    exact ⟨fun _ h => absurd h hlen, fun _ => ⟨storage, rfl⟩⟩

end Dns

section Connect

variable {date : OsDate}

structure SynRecord.Plain (r : SynRecord) : Prop where
  count_nonneg : 0 ≤ r.count
  count_le : r.count ≤ 2 ^ 53
  sec : r.tvSec.natAbs < 10 ^ 14
  usec : r.tvUsec.natAbs < 10 ^ 14

def SynTable.Plain (t : SynTable) : Prop := ∀ key r, t key = some r → r.Plain

/-- Counting stops at `2 ^ 53`, where the doubles no longer hold the next integer. -/
theorem luaNumber_succ (n : Nat) :
    luaNumber (min (2 ^ 53) (n : Int) + 1) = min (2 ^ 53) ((n + 1 : Nat) : Int) := by
  have htop : luaNumber (2 ^ 53) = 2 ^ 53 ∧ luaNumber (2 ^ 53 + 1) = 2 ^ 53 := by decide +kernel
  rcases lt_trichotomy (n + 1) (2 ^ 53) with hlt | heq | hgt
  · rw [min_eq_right (by omega), min_eq_right (by omega), luaNumber_of_lt (by omega)]
    rfl
  · have hsucc : (n : Int) + 1 = 2 ^ 53 := by omega
    rw [min_eq_right (by omega), min_eq_right (by omega), Nat.cast_succ, hsucc]
    exact htop.1
  · rw [min_eq_left (by omega), min_eq_left (by omega)]
    exact htop.2

theorem luaNumber_count {n : Int} (hn : 0 ≤ n) (hle : n ≤ 2 ^ 53) :
    0 ≤ luaNumber (n + 1) ∧ luaNumber (n + 1) ≤ 2 ^ 53 := by
  obtain ⟨k, rfl⟩ := Int.eq_ofNat_of_zero_le hn
  have hsucc := luaNumber_succ k
  rw [min_eq_right hle] at hsucc
  rw [hsucc]
  omega

theorem SynTable.Plain.update {t : SynTable} (ht : t.Plain) (key : LuaString) {r : Option SynRecord}
    (hr : ∀ r' ∈ r, r'.Plain) : SynTable.Plain (Function.update t key r) := by
  intro k r' hk
  by_cases hkey : k = key
  · subst hkey
    rw [Function.update_self] at hk
    exact hr r' hk
  · rw [Function.update_of_ne hkey] at hk
    exact ht k r' hk

theorem reportConnect_ok {first : SynRecord} (hfirst : first.Plain) {packet : LuaPacket}
    (hdate : (date packet.tvSec).isSome) (hsec : packet.tvSec.natAbs < 10 ^ 14)
    (husec : packet.tvUsec.natAbs < 10 ^ 14) : ∃ u, reportConnect date first packet = .ok u := by
  have hfirstSec := hfirst.sec
  have hfirstUsec := hfirst.usec
  have hcount := hfirst.count_nonneg
  have hcount' := hfirst.count_le
  obtain ⟨line, hline⟩ := dateLine_ok hdate (luaText packet.tvUsec)
  obtain ⟨count, hcountText⟩ := formatSigned_ok 4 6 false (n := first.count) (by omega)
  have hborrow := luaNumber_of_lt (n := packet.tvSec - 1) (by omega)
  have hcarry := luaNumber_of_lt (n := packet.tvUsec + 1000000) (by omega)
  have hdiffs : ∀ sec usec : Int, sec.natAbs < 2 * 10 ^ 14 → usec.natAbs < 2 * 10 ^ 14 →
      ∃ a b, formatSigned 5 12 false (some (luaNumber (sec - first.tvSec))) = .ok a ∧
        formatSigned 6 6 true (some (luaNumber (usec - first.tvUsec))) = .ok b := by
    intro sec usec hs hu
    rw [luaNumber_of_lt (n := sec - first.tvSec) (by omega),
      luaNumber_of_lt (n := usec - first.tvUsec) (by omega)]
    obtain ⟨a, ha⟩ := formatSigned_ok 5 12 false (n := sec - first.tvSec) (by omega)
    obtain ⟨b, hb⟩ := formatSigned_ok 6 6 true (n := usec - first.tvUsec) (by omega)
    exact ⟨a, b, ha, hb⟩
  rw [reportConnect, hline]
  by_cases hb : packet.tvUsec < first.tvUsec
  · obtain ⟨a, b, ha, hb'⟩ := hdiffs (packet.tvSec - 1) (packet.tvUsec + 1000000) (by omega) (by omega)
    exact ⟨(), by simp [bind, Except.bind, hb, hborrow, hcarry, hcountText, ha, hb', pure, Except.pure]⟩
  · obtain ⟨a, b, ha, hb'⟩ := hdiffs packet.tvSec packet.tvUsec (by omega) (by omega)
    exact ⟨(), by simp [bind, Except.bind, hb, hcountText, ha, hb', pure, Except.pure]⟩

theorem SynTable.Plain.recordSyn {t : SynTable} (ht : t.Plain) {packet : LuaPacket}
    (hsec : packet.tvSec.natAbs < 10 ^ 14) (husec : packet.tvUsec.natAbs < 10 ^ 14) :
    SynTable.Plain (recordSyn t packet) := by
  rw [Tcpkit.recordSyn]
  cases hfound : t (flowKey packet.sip packet.sport packet.dip packet.dport) with
  | none =>
    apply ht.update
    rintro r' ⟨⟩
    exact ⟨Int.le_refl 0, show (0 : Int) ≤ 2 ^ 53 by decide, hsec, husec⟩
  | some syn =>
    have hsyn := ht _ syn hfound
    have hcount := luaNumber_count hsyn.count_nonneg hsyn.count_le
    by_cases hseq : syn.seq = packet.seq
    · simp only [hseq, if_true]
      apply ht.update
      rintro r' ⟨⟩
      exact ⟨hcount.1, hcount.2, hsyn.sec, hsyn.usec⟩
    · simp only [hseq, if_false]
      exact ht

theorem SynTable.Plain.answerSyn {t : SynTable} (ht : t.Plain) {packet : LuaPacket}
    (hdate : (date packet.tvSec).isSome) (hsec : packet.tvSec.natAbs < 10 ^ 14)
    (husec : packet.tvUsec.natAbs < 10 ^ 14) :
    ∃ t', answerSyn date t packet = .ok t' ∧ t'.Plain := by
  have hclosed := ht.update (flowKey packet.dip packet.dport packet.sip packet.sport) (r := none)
    (by simp)
  refine ⟨_, ?_, hclosed⟩
  rw [Tcpkit.answerSyn]
  cases hfound : t (flowKey packet.dip packet.dport packet.sip packet.sport) with
  | none => rfl
  | some first =>
    have hfirst := ht _ first hfound
    obtain ⟨u, hu⟩ := reportConnect_ok hfirst hdate hsec husec
    simp only [ge_iff_le, hfirst.count_nonneg, if_true, hu]
    rfl

theorem connectProcess_ok {t : SynTable} (ht : t.Plain) {p : Packet} (hp : p.Printable date)
    (htcp : p.payloadSize = 0 → p.isTcp = true) :
    ∃ t', connectProcess date t (pushPacketToLuaState p.toUserPacket) = .ok t' ∧ t'.Plain := by
  by_cases hsize : p.payloadSize = 0
  · have hflags : (pushPacketToLuaState p.toUserPacket).flags = some (p.flags.toNat : Int) :=
      if_pos (htcp hsize)
    obtain ⟨t', hanswer, ht'⟩ := ht.answerSyn hp.pushed_converts hp.pushed_sec hp.pushed_usec
    rw [connectProcess, pushed_size, if_neg (not_not.mpr hsize), hflags]
    by_cases hsyn : (some (p.flags.toNat : Int)) = some 2
    · rw [if_pos hsyn]
      exact ⟨_, rfl, ht.recordSyn hp.pushed_sec hp.pushed_usec⟩
    · rw [if_neg hsyn]
      by_cases hsynAck : (some (p.flags.toNat : Int)) = some 18
      · rw [if_pos hsynAck]
        exact ⟨t', hanswer, ht'⟩
      · rw [if_neg hsynAck]
        by_cases hreset : bit32Of p.flags.toNat &&& 4 = 0
        · exact ⟨t, by simp [bit32Band, luaCheckNumber, Except.map, bind, Except.bind, hreset, pure,
            Except.pure], ht⟩
        · exact ⟨t', by simpa [bit32Band, luaCheckNumber, Except.map, bind, Except.bind,
            hreset] using hanswer,
            ht'⟩
  · rw [connectProcess, pushed_size, if_pos hsize]
    exact ⟨t, rfl, ht⟩

theorem connectProcess_tcp {t t' : SynTable} {p : Packet}
    (h : connectProcess date t (pushPacketToLuaState p.toUserPacket) = .ok t') (hsize : p.payloadSize = 0) :
    p.isTcp = true := by
  cases htcp : p.isTcp with
  | true => rfl
  | false =>
    have hflags : (pushPacketToLuaState p.toUserPacket).flags = none := by
      simp [pushPacketToLuaState, htcp]
    rw [connectProcess, pushed_size, if_neg (not_not.mpr hsize), hflags] at h
    cases h

end Connect

section Example

variable {date : OsDate} {p : Packet}

theorem exampleProcess_of_fields {packet : LuaPacket} {seq ack flags : Int}
    (hdate : (date packet.tvSec).isSome) (hsport : packet.sport.natAbs < 2 ^ 63)
    (hdport : packet.dport.natAbs < 2 ^ 63) (hseq : packet.seq = some seq) (hack : packet.ack = some ack)
    (hflags : packet.flags = some flags)
    (hrange : ∀ n ∈ [seq, ack, flags, packet.size], 0 ≤ n ∧ n < 2 ^ 64) :
    ∃ u, exampleProcess date () packet = .ok u := by
  obtain ⟨line, hline⟩ := dateLine_ok hdate (luaText packet.tvUsec)
  obtain ⟨a, ha⟩ := formatSigned_ok 4 0 false hsport
  obtain ⟨b, hb⟩ := formatSigned_ok 6 0 false hdport
  obtain ⟨c, hc⟩ := formatUnsigned_ok 7 (hrange seq (by simp))
  obtain ⟨d, hd⟩ := formatUnsigned_ok 8 (hrange ack (by simp))
  obtain ⟨e, he⟩ := formatUnsigned_ok 9 (hrange flags (by simp))
  obtain ⟨f, hf⟩ := formatUnsigned_ok 10 (hrange packet.size (by simp))
  rw [exampleProcess, hline, ha, hb, hseq, hc, hack, hd, hflags, he, hf]
  exact ⟨(), ite_self _⟩

theorem exampleProcess_ok (hp : p.Printable date) (htcp : p.payloadSize ≠ 0 → p.isTcp = true) :
    ∃ u, exampleProcess date () (pushPacketToLuaState p.toUserPacket) = .ok u := by
  by_cases hsize : p.payloadSize = 0
  · rw [exampleProcess, pushed_size, if_neg (not_not.mpr hsize)]
    exact ⟨(), rfl⟩
  · have hsport := p.portSrc.toNat_lt
    have hdport := p.portDst.toNat_lt
    have hseq := p.seq.toNat_lt
    have hack := p.ack.toNat_lt
    have hflags := p.flags.toNat_lt
    have hlt := hp.size
    have hnonneg := p.nonneg
    refine exampleProcess_of_fields hp.pushed_converts ?_ ?_ (if_pos (htcp hsize)) (if_pos (htcp hsize))
      (if_pos (htcp hsize)) ?_
    · show (p.portSrc.toNat : Int).natAbs < 2 ^ 63
      omega
    · show (p.portDst.toNat : Int).natAbs < 2 ^ 63
      omega
    · rw [pushed_size]
      intro n hn
      simp only [List.mem_cons, List.not_mem_nil, or_false] at hn
      omega

theorem exampleProcess_tcp {u : Unit}
    (h : exampleProcess date () (pushPacketToLuaState p.toUserPacket) = .ok u) (hsize : p.payloadSize ≠ 0) :
    p.isTcp = true := by
  cases htcp : p.isTcp with
  | true => rfl
  | false =>
    have hseq : (pushPacketToLuaState p.toUserPacket).seq = none := by
      simp [pushPacketToLuaState, htcp]
    rw [exampleProcess, pushed_size, if_pos hsize, hseq] at h
    obtain ⟨line, -, h⟩ := bind_eq_ok h
    obtain ⟨sport, -, h⟩ := bind_eq_ok h
    obtain ⟨dport, -, h⟩ := bind_eq_ok h
    cases h

end Example

/-- Each script returns on every packet of a run exactly when no packet is of the kind it does
not guard against. -/
theorem scripts_return_iff (date : OsDate) (packets : List Packet) (h : ∀ p ∈ packets, p.Printable date) :
    ((∃ s, runScript (dnsProcess date) (fun _ => none) packets = .ok s) ↔
        ∀ p ∈ packets, p.CompleteQuery) ∧
      ((∃ t, runScript (connectProcess date) (fun _ => none) packets = .ok t) ↔
        ∀ p ∈ packets, p.payloadSize = 0 → p.isTcp = true) ∧
      ((∃ u, runScript (exampleProcess date) () packets = .ok u) ↔
        ∀ p ∈ packets, p.payloadSize ≠ 0 → p.isTcp = true) := by
  refine ⟨?_, ?_, ?_⟩
  · refine foldlM_ok_iff (I := fun _ => True) trivial ?_ ?_
    · intro storage p hp _ hcomplete
      obtain ⟨s, hs⟩ := (dnsProcess_ok_iff storage (h p hp)).mpr hcomplete
      exact ⟨s, hs, trivial⟩
    · intro storage p hp s hs
      exact (dnsProcess_ok_iff storage (h p hp)).mp ⟨s, hs⟩
  · refine foldlM_ok_iff (I := SynTable.Plain) (fun _ _ hr => by cases hr) ?_ ?_
    · exact fun t p hp ht htcp => connectProcess_ok ht (h p hp) htcp
    · exact fun t p _ t' ht' hsize => connectProcess_tcp ht' hsize
  · refine foldlM_ok_iff (I := fun _ => True) trivial ?_ ?_
    · intro u p hp _ htcp
      obtain ⟨v, hv⟩ := exampleProcess_ok (h p hp) htcp
      exact ⟨v, hv, trivial⟩
    · exact fun u p _ v hv hsize => exampleProcess_tcp hv hsize

theorem length_nonneg (payload : List UInt8) : (0 : Int) ≤ payload.length := Int.natCast_nonneg _

theorem length_readable (payload : List UInt8) : (payload.length : Int) ≤ payload.length := Int.le_refl _

def datagram (payload : List UInt8) : Packet where
  flags := 0
  isTcp := false
  tv := ⟨0, 0⟩
  ipSrc := 0x0100000a
  ipDst := 0x0200000a
  portSrc := 40000
  portDst := 53
  window := 0
  seq := 0
  ack := 0
  size := 42
  payloadSize := payload.length
  wirePayloadSize := payload.length
  payload := payload
  nonneg := length_nonneg payload
  readable := length_readable payload
  allocs := Allocs.all

def epochDate : OsDate := fun _ => some (luaLiteral "1970-01-01 00:00:00")

/-- A header that announces one question. -/
def queryHeader : List UInt8 := [0, 1, 1, 0, 0, 1, 0, 0, 0, 0, 0, 0]

/-- The name of the root, type A and class IN. -/
def rootQuestion : List UInt8 := [0, 0, 1, 0, 1]

theorem scripts_return_iff_rootQuery :
    (∃ s, runScript (dnsProcess epochDate) (fun _ => none) [datagram (queryHeader ++ rootQuestion)] = .ok s) ∧
      (∃ t, runScript (connectProcess epochDate) (fun _ => none)
        [datagram (queryHeader ++ rootQuestion)] = .ok t) ∧
      ¬∃ u, runScript (exampleProcess epochDate) () [datagram (queryHeader ++ rootQuestion)] = .ok u := by
  have hprintable : ∀ p ∈ [datagram (queryHeader ++ rootQuestion)], p.Printable epochDate := by
    intro p hp
    rw [List.mem_singleton.mp hp]
    exact ⟨by decide, by decide, by decide, rfl⟩
  obtain ⟨hdns, hconnect, hexample⟩ := scripts_return_iff epochDate _ hprintable
  refine ⟨hdns.mpr ?_, hconnect.mpr ?_, ?_⟩
  · intro p hp _ _
    have hcount : (be16 (datagram (queryHeader ++ rootQuestion)).captured 4).toNat = 1 := by decide
    rw [List.mem_singleton.mp hp, hcount]
    exact .cons (.root (by decide) (by decide)) (by decide) .nil
  · intro p hp hsize
    rw [List.mem_singleton.mp hp] at hsize
    exact absurd hsize (by decide)
  · intro hrun
    exact absurd (hexample.mp hrun (datagram (queryHeader ++ rootQuestion)) (by simp) (by decide)) (by decide)

/-- A query without its question stops `dns.lua` and `example.lua`, an empty datagram stops
`tcp-connect.lua`. -/
theorem datagrams_raise :
    runScript (dnsProcess epochDate) (fun _ => none) [datagram queryHeader] = .error .concatenateNil ∧
      runScript (connectProcess epochDate) (fun _ => none) [datagram []] = .error (.badArgument 1) ∧
      runScript (exampleProcess epochDate) () [datagram queryHeader] = .error (.badArgument 7) := by
  refine ⟨rfl, rfl, rfl⟩

end Tcpkit
