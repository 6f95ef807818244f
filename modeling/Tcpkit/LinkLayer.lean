import Tcpkit.Datagrams

/-! Frames whose link header names another protocol than IPv4. Only the length of the link header
is known to `packet_handler`; what stands behind it is taken for an IPv4 packet by its version. -/

namespace Tcpkit

def linkProtocol : LinkType → List UInt8 → Option UInt16
  | .en10mb, packet => some (be16 packet 12)
  | .linuxSll, packet => some (be16 packet 14)
  | _, _ => none

/-- No endpoint, no counter, no bucket and no pending request is changed. -/
def Sniffer.Unmoved (s : Sniffer) (r : Sniffer × List Event) : Prop :=
  (∀ key, r.1.synTab.get key = s.synTab.get key) ∧ ∀ key, r.1.requests.get key = s.requests.get key

def Sniffer.Drops (s : Sniffer) (now : Timeval) : Prop :=
  s.luaState = false ∧ s.protocol ≠ .raw ∧ s.expirePrimed = true ∧
    expireIntervalUs ≤ tvDeltaUs now s.lastExpire ∧
    ∃ key req, s.requests.get key = some req ∧ requestExpired now requestTimeoutUs req = true

namespace Sniffer

variable {s : Sniffer} {now : Timeval} {a : Allocs} {p : UserPacket} {r : Sniffer × List Event}

theorem expire_keeps_iff (hscript : s.luaState = false) (hraw : s.protocol ≠ .raw) :
    (∀ key, (expireStaleRequests s now).requests.get key = s.requests.get key) ↔ ¬s.Drops now := by
  rw [expireStaleRequests]
  by_cases hprimed : s.expirePrimed = true
  · rw [hprimed, Bool.not_true, if_neg Bool.false_ne_true]
    by_cases hdue : tvDeltaUs now s.lastExpire < expireIntervalUs
    · rw [if_pos hdue]
      exact iff_of_true (fun _ => rfl) fun hdrops => not_le.mpr hdue hdrops.2.2.2.1
    · rw [if_neg hdue]
      simp only [requestsExpire, Table.get_sweep]
      constructor
      · rintro hkept ⟨-, -, -, -, key, req, hget, hexpired⟩
        have hgone := hkept key
        rw [hget, Option.filter_some, hexpired] at hgone
        cases hgone
      · intro hno key
        cases hget : s.requests.get key with
        | none => rfl
        | some req =>
          cases hexpired : requestExpired now requestTimeoutUs req with
          | false => simp [hexpired]
          | true => exact absurd ⟨hscript, hraw, hprimed, not_lt.mp hdue, key, req, hget, hexpired⟩ hno
  · rw [Bool.not_eq_true] at hprimed
    rw [hprimed, Bool.not_false, if_pos rfl]
    refine iff_of_true (fun _ => rfl) fun hdrops => ?_
    rw [hdrops.2.2.1] at hprimed
    cases hprimed

theorem unmoved_iff (h : processUserPacket a s p = some r) :
    s.Unmoved r ↔ ¬s.Touches a p ∧ ¬s.Drops p.tv := by
  by_cases ht : s.Touches a p
  · refine iff_of_false (fun hsame => ?_) fun hno => hno.1 ht
    obtain ⟨key, hchanged⟩ := changes_of_touches h ht
    exact hchanged (hsame.1 key)
  · rw [and_iff_right ht]
    rcases untouched_cases h ht with ⟨hidle, hr, -⟩ | ⟨hscript, hraw, hr⟩
    · rw [Unmoved, hr]
      refine iff_of_true ⟨fun _ => rfl, fun _ => rfl⟩ fun hdrops => ?_
      rcases hidle with hscript | hraw
      · rw [hdrops.1] at hscript
        cases hscript
      · exact hdrops.2.1 hraw
    · rw [← expire_keeps_iff hscript hraw, Unmoved, hr]
      exact and_iff_right fun key => by rw [synTab_expire]

end Sniffer

namespace CapturedFrame

/-- Frames that differ in their link headers only are read alike. -/
theorem read_eq_of_ip (layout : TcpLayout) (s : Sniffer) {f g : CapturedFrame}
    (hheader : f.header = g.header) (hip : f.ip s.datalink = g.ip s.datalink) :
    f.read layout s = g.read layout s := by
  have hlength : f.bytes.length = g.bytes.length := by
    rw [f.captured, g.captured, hheader]
  simp only [read, frameParsed]
  cases hl : linkhdrSize s.datalink with
  | none => rfl
  | some n =>
    simp only [ip, hl, Option.getD_some] at hip
    simp only [hlength, hheader, hip]

theorem unmoved_outcome_iff (layout : TcpLayout) (s : Sniffer) (f : CapturedFrame) :
    s.Unmoved (f.outcome layout s) ↔
      ∀ u, f.read layout s = some u → ¬s.Touches f.allocs u ∧ ¬s.Drops f.header.ts := by
  have hdump (r : Sniffer × List Event) : (dumperWrite s f.header f.bytes).Unmoved r ↔ s.Unmoved r := Iff.rfl
  cases hread : f.read layout s with
  | none =>
    rw [outcome_of_skipped hread]
    exact iff_of_true ⟨fun _ => rfl, fun _ => rfl⟩ fun u hu => by cases hu
  | some u =>
    have hunmoved := Sniffer.unmoved_iff (outcome_of_read hread)
    rw [hdump, read_tv hread] at hunmoved
    rw [hunmoved]
    constructor
    · rintro hno u' ⟨⟩
      exact hno
    · exact fun hno => hno u rfl

end CapturedFrame

/-- What the link header says is not looked at. In every state and for every frame, whatever
protocol its link header names: the frame is read as any frame with the same bytes behind the link
header, and nothing is moved if and only if it is skipped, or what is read does not touch the
statistics and no sweep that is due finds an overdue request. -/
theorem link_header_ignored (layout : TcpLayout) (s : Sniffer) (f : CapturedFrame) :
    (∀ g : CapturedFrame, f.header = g.header → f.ip s.datalink = g.ip s.datalink →
      f.read layout s = g.read layout s) ∧
    (s.Unmoved (f.outcome layout s) ↔
      ∀ u, f.read layout s = some u → ¬s.Touches f.allocs u ∧ ¬s.Drops f.header.ts) :=
  ⟨fun _ hheader hip => CapturedFrame.read_eq_of_ip layout s hheader hip, f.unmoved_outcome_iff layout s⟩

theorem vendorFrame_limit : (54 : UInt32).toNat ≤ 262144 := by decide

/-- An Ethernet frame of the experimental type `0x88b5` that spells the headers of a SYN. -/
def vendorFrame : CapturedFrame where
  header := ⟨⟨1, 0⟩, 54, 54⟩
  bytes := [2, 0, 0, 0, 0, 2, 2, 0, 0, 0, 0, 1, 0x88, 0xb5] ++ synHeaders 0x02
  captured := rfl
  limit := vendorFrame_limit
  allocs := Allocs.all

theorem vendorFrame_registers :
    linkProtocol .en10mb vendorFrame.bytes = some 0x88b5 ∧
      ¬(snifferCreate redisOptions .en10mb).Unmoved
        (vendorFrame.outcome .linux (snifferCreate redisOptions .en10mb)) := by
  refine ⟨by decide +kernel, fun hunmoved => ?_⟩
  have hkept := hunmoved.1 (endpointKey ⟨0x0200000a, 6379⟩)
  have hnew : ((vendorFrame.outcome .linux (snifferCreate redisOptions .en10mb)).1.synTab.get
      (endpointKey ⟨0x0200000a, 6379⟩)).isSome = true := by decide +kernel
  rw [hkept] at hnew
  exact absurd hnew (by decide +kernel)

end Tcpkit
