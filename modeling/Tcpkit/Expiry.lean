import Tcpkit.Matching

/-! How long a request can wait. The sweep runs before a packet is matched and
at most once an interval, so its mark ties the age of every pending request to
the time of the last packet. -/

namespace Tcpkit

theorem tvDeltaUs_add (a b c : Timeval) : tvDeltaUs a b + tvDeltaUs b c = tvDeltaUs a c := by
  unfold tvDeltaUs
  omega

theorem tvDeltaUs_self (a : Timeval) : tvDeltaUs a a = 0 := by
  rw [tvDeltaUs]
  omega

namespace Monitor

variable {m : Monitor} {a : Arrival} {now : Timeval} {slot : Endpoint × Endpoint} {asked : Timeval}

/-- The mark is less than an interval old, and what waits was not overdue then. -/
def Current (m : Monitor) (now : Timeval) : Prop :=
  ∃ last, m.lastExpire = some last ∧ 0 ≤ tvDeltaUs now last ∧
    tvDeltaUs now last < expireIntervalUs ∧
    ∀ slot asked, m.pending.lookup slot = some asked → tvDeltaUs last asked ≤ requestTimeoutUs

theorem Current.age_lt (h : m.Current now) (hl : m.pending.lookup slot = some asked) :
    tvDeltaUs now asked < 61000000 := by
  obtain ⟨last, -, -, hlt, hall⟩ := h
  have hle := hall slot asked hl
  have hadd := tvDeltaUs_add now last asked
  unfold expireIntervalUs at hlt
  unfold requestTimeoutUs at hle
  omega

theorem expire_eq_self {last : Timeval} (hlast : m.lastExpire = some last)
    (hlt : tvDeltaUs now last < expireIntervalUs) : m.expire now = m := by
  simp only [Monitor.expire, hlast, if_pos hlt]

theorem current_expire {last : Timeval} (hlast : m.lastExpire = some last)
    (hle : 0 ≤ tvDeltaUs now last)
    (hall : tvDeltaUs now last < expireIntervalUs →
      ∀ slot asked, m.pending.lookup slot = some asked → tvDeltaUs last asked ≤ requestTimeoutUs) :
    (m.expire now).Current now := by
  by_cases hlt : tvDeltaUs now last < expireIntervalUs
  · rw [expire_eq_self hlast hlt]
    exact ⟨last, hlast, hle, hlt, hall hlt⟩
  · have hexp : m.expire now = { m with
        lastExpire := some now
        pending := m.pending.filterValues (fun tv => tvDeltaUs now tv ≤ requestTimeoutUs) } := by
      simp only [expire, hlast, if_neg hlt]
    rw [hexp]
    refine ⟨now, rfl, by rw [tvDeltaUs_self], by rw [tvDeltaUs_self]; decide, ?_⟩
    intro slot asked hl
    rw [Finmap.lookup_filterValues, Option.filter_eq_some_iff] at hl
    simpa using hl.2

theorem Current.expire (h : m.Current now) {later : Timeval} (hle : 0 ≤ tvDeltaUs later now) :
    (m.expire later).Current later := by
  obtain ⟨last, hlast, hn, -, hall⟩ := h
  refine current_expire hlast ?_ fun _ => hall
  rw [← tvDeltaUs_add later now last]
  omega

theorem lastExpire_next (m : Monitor) (a : Arrival) :
    (m.next a).lastExpire = (m.expire a.tv).lastExpire := by
  have hcount (n : Monitor) (src dst : Endpoint) (size : UInt32) :
      (n.count src dst size).lastExpire = n.lastExpire := by
    rw [count]
    split <;> rfl
  cases ha : a.signal with
  | silent => rw [next, step_silent ha]
  | opening server =>
    rw [next, step_opening ha]
    cases a.stored <;> rfl
  | data src dst size =>
    by_cases hs : m.Registered src
    · rw [next, step_response ha hs, ← hcount (m.expire a.tv) src dst size]
      rw [answer]
      split <;> rfl
    · by_cases hd : m.Registered dst
      · rw [next, step_request ha hs hd, ← hcount (m.expire a.tv) src dst size]
        rw [enter]
        split
        · split <;> rfl
        · rfl
      · rw [next, step_unknown ha hs hd, hcount]

theorem lookup_next_cases (h : (m.next a).pending.lookup slot = some asked) :
    (m.expire a.tv).pending.lookup slot = some asked ∨ asked = a.tv := by
  obtain ⟨client, server⟩ := slot
  by_cases hr : m.Responds a client server
  · rw [hr.lookup_next] at h
    cases h
  · by_cases hadm : m.Admits a client server
    · rw [hadm.lookup_next] at h
      exact Or.inr (Option.some.inj h).symm
    · rw [lookup_next_of_not hr hadm] at h
      exact Or.inl h

theorem current_next (h : (m.expire a.tv).Current a.tv) : (m.next a).Current a.tv := by
  obtain ⟨last, hlast, hle, hlt, hall⟩ := h
  refine ⟨last, by rw [lastExpire_next, hlast], hle, hlt, fun slot asked hl => ?_⟩
  rcases lookup_next_cases hl with hl | rfl
  · exact hall slot asked hl
  · have hadd := tvDeltaUs_add last a.tv last
    have hself := tvDeltaUs_add a.tv last a.tv
    rw [tvDeltaUs_self] at hadd hself
    rw [requestTimeoutUs]
    omega

theorem Current.next (h : m.Current now) (hle : 0 ≤ tvDeltaUs a.tv now) :
    (m.next a).Current a.tv :=
  current_next (h.expire hle)

theorem current_expire_of_unprimed (hlast : m.lastExpire = none) (hempty : m.pending = ∅) :
    (m.expire now).Current now := by
  have hexp : m.expire now = { m with lastExpire := some now } := by
    simp only [Monitor.expire, hlast]
  rw [hexp]
  refine ⟨now, rfl, by rw [tvDeltaUs_self], by rw [tvDeltaUs_self]; decide, ?_⟩
  intro slot asked hl
  simp [hempty] at hl

namespace Run

variable {t : Run} {client server : Endpoint} {i j : Fin t.length}

def Ordered (t : Run) (n : Nat) : Prop :=
  ∀ i j : Fin t.length, n ≤ i → i ≤ j → 0 ≤ tvDeltaUs (t.input j).tv (t.input i).tv

theorem pending_of_unprimed {n : Nat} (hn : n ≤ t.length) (h : (t.state n).lastExpire = none) :
    (t.state n).pending = ∅ := by
  cases n with
  | zero => rw [t.fresh]; rfl
  | succ n =>
    let k : Fin t.length := ⟨n, hn⟩
    have hnext : (t.state (n + 1)).lastExpire = ((t.state k).expire (t.input k).tv).lastExpire := by
      rw [t.next k]
      exact lastExpire_next _ _
    rw [h, Monitor.expire] at hnext
    split at hnext
    · cases hnext
    · rename_i last hlast
      split at hnext
      · rw [hlast] at hnext
        cases hnext
      · cases hnext

theorem current_or_stuck_one {last : Timeval} (hlast : (t.state j).lastExpire = some last) :
    (t.state (j + 1)).Current (t.input j).tv ∨ (t.state (j + 1)).lastExpire = some last ∧
      tvDeltaUs (t.input j).tv last < expireIntervalUs := by
  rw [t.next j]
  by_cases hlt : tvDeltaUs (t.input j).tv last < expireIntervalUs
  · exact Or.inr ⟨by rw [lastExpire_next, expire_eq_self hlast hlt, hlast], hlt⟩
  · refine Or.inl (current_next (current_expire hlast ?_ fun h => absurd h hlt))
    unfold expireIntervalUs at hlt
    omega

/-- From input `n` on either the mark is current, or it is the mark found at `n`
and every packet so far came less than an interval after it. -/
theorem current_or_stuck {n : Nat} (hord : t.Ordered n) (hnj : n ≤ j) :
    (t.state (j + 1)).Current (t.input j).tv ∨
      ∃ last, (t.state n).lastExpire = some last ∧ (t.state (j + 1)).lastExpire = some last ∧
        tvDeltaUs (t.input j).tv last < expireIntervalUs := by
  obtain ⟨j, hj⟩ := j
  simp only at hnj
  revert hj
  induction j, hnj using Nat.le_induction with
  | base =>
    intro hn
    rcases hlast : (t.state n).lastExpire with _ | last
    · rw [t.next ⟨n, hn⟩]
      exact Or.inl (current_next (current_expire_of_unprimed hlast
        (pending_of_unprimed (Nat.le_of_lt hn) hlast)))
    · exact (current_or_stuck_one hlast).imp_right fun h => ⟨last, rfl, h⟩
  | succ k hnk ih =>
    intro hk
    rcases ih (by omega) with hcur | ⟨last, hstart, hlast, -⟩
    · have hle := hord ⟨k, by omega⟩ ⟨k + 1, hk⟩ hnk (Nat.le_succ k)
      rw [t.next ⟨k + 1, hk⟩]
      exact Or.inl (hcur.next hle)
    · exact (current_or_stuck_one hlast).imp_right fun h => ⟨last, hstart, h⟩

theorem current_of_ordered (hord : t.Ordered 0) (j : Fin t.length) :
    (t.state (j + 1)).Current (t.input j).tv := by
  rcases current_or_stuck hord (Nat.zero_le j) with h | ⟨last, hstart, -⟩
  · exact h
  · rw [t.fresh] at hstart
    cases hstart

theorem current_swept (hord : t.Ordered 0) (j : Fin t.length) :
    (t.swept j).Current (t.input j).tv := by
  obtain ⟨j, hj⟩ := j
  cases j with
  | zero =>
    refine current_expire_of_unprimed ?_ ?_ <;>
    · simp only
      rw [t.fresh]
      rfl
  | succ k =>
    have hle := hord ⟨k, by omega⟩ ⟨k + 1, hj⟩ (Nat.zero_le k) (Nat.le_succ k)
    exact (current_of_ordered hord ⟨k, by omega⟩).expire hle

theorem waits_of_admits (hord : t.Ordered 0) (hadm : t.Admits i client server) (hij : i < j)
    (hquiet : ∀ m, i < m → m < j → ¬(t.state m).Responds (t.input m) client server)
    (hage : tvDeltaUs (t.input j).tv (t.input i).tv ≤ requestTimeoutUs) :
    t.Waits i client server j := by
  have hyoung (m : Fin t.length) (hmj : m ≤ j) :
      tvDeltaUs (t.input m).tv (t.input i).tv ≤ requestTimeoutUs := by
    have hle := hord m j (Nat.zero_le m) hmj
    have hadd := tvDeltaUs_add (t.input j).tv (t.input m).tv (t.input i).tv
    omega
  have hstate (n : Nat) (hin : (i : Nat) < n) (hnj : n ≤ j) :
      (t.state n).pending.lookup (client, server) = some (t.input i).tv := by
    refine t.stable (P := fun m => m.pending.lookup (client, server) = some (t.input i).tv)
      (Nat.succ_le_of_lt hin) (by omega) (fun k hik hkn hk => ?_) ?_
    · have hkj : k < j := by
        have : (k : Nat) < j := by omega
        exact this
      have hswept := lookup_expire_of_le hk (hyoung k (le_of_lt hkj))
      have hnot : ¬(t.state k).Admits (t.input k) client server := by
        intro hh
        rcases hh with ⟨-, hnone, -⟩
        rw [hswept] at hnone
        cases hnone
      rw [lookup_next_of_not (hquiet k (Nat.lt_of_succ_le hik) hkj) hnot, hswept]
    · rw [t.next i]
      exact Admits.lookup_next hadm
  exact ⟨hij, hadm, fun m him hmj => lookup_expire_of_le (hstate m him hmj) (hyoung m hmj)⟩

end Run

end Monitor

namespace Capture

def Ordered (r : Capture) (n : Nat) : Prop :=
  ∀ i j : Fin r.packets.length, n ≤ i → i ≤ j → 0 ≤ tvDeltaUs (r.packet j).tv (r.packet i).tv

variable {r : Capture}

theorem exists_lookup_of_get {n : Nat} (hn : n ≤ r.packets.length) {key : CString} {req : Request}
    (h : (r.before n).requests.get key = some req) :
    ∃ slot, (r.monitorRun.state n).pending.lookup slot = some req.tv := by
  have hkey : key ∈ (r.before n).requests.toMap.keys := by
    rw [Finmap.mem_keys_iff_isSome, Table.lookup_toMap, h]
    rfl
  obtain ⟨slot, rfl⟩ := (r.monitoring hn).requestKeys key hkey
  exact ⟨slot, (Sniffer.lookup_pending _ slot.1 slot.2).trans (congrArg (Option.map _) h)⟩

end Capture

namespace Capture

variable {r : Capture}

theorem lastExpire_eq {n : Nat} {last : Timeval} :
    (r.monitorRun.state n).lastExpire = some last ↔
      (r.before n).expirePrimed = true ∧ (r.before n).lastExpire = last := by
  change (if (r.before n).expirePrimed then some (r.before n).lastExpire else none) = some last ↔ _
  by_cases hp : (r.before n).expirePrimed = true
  · simp [hp]
  · simp [hp]

/-- The mark found at packet `n`, if there is one, is at least an interval older
than the last packet. -/
def MarkBehind (r : Capture) (n : Nat) (last : Fin r.packets.length) : Prop :=
  (r.before n).expirePrimed = true →
    expireIntervalUs ≤ tvDeltaUs (r.packet last).tv (r.before n).lastExpire

theorem swept_eq_before {j : Fin r.packets.length} (hp : (r.before j).expirePrimed = true)
    (hlt : tvDeltaUs (r.packet j).tv (r.before j).lastExpire < expireIntervalUs) :
    r.swept j = r.before j := by
  rw [swept, expireStaleRequests]
  simp [hp, hlt]

end Capture

/-- A handshake stamped with the given second, and a request that is never
answered, followed by a bare ACK 61 s after it. -/
def abandonedCapture (handshake : Int) : Capture where
  opts := redisOptions
  datalink := .raw
  packets :=
    [⟨⟨0x02, true, ⟨handshake, 0⟩, 1, 2, 1000, 6379, 0, 0, 0, 60, 0, 0, []⟩, Int.le_refl 0,
        Int.le_refl 0, Allocs.all⟩,
      ⟨⟨0x18, true, ⟨1700000000, 0⟩, 1, 2, 1000, 6379, 0, 0, 0, 64, 4, 4, [80, 73, 78, 71]⟩,
        by decide, by decide, Allocs.all⟩,
      ⟨⟨0x10, true, ⟨1700000061, 0⟩, 1, 2, 1000, 6379, 0, 0, 0, 60, 0, 0, []⟩, by decide,
        by decide, Allocs.all⟩]
  noScript := redisOptions_noScript
  notRaw := redisOptions_notRaw

end Tcpkit
