import Tcpkit.Matching

/-! Connections that are opened again on the same pair of endpoints. A SYN does not look at the
pending requests, so what the last connection left unanswered is answered by the next one. -/

namespace Tcpkit

namespace Monitor.Run

variable {t : Run} {client server : Endpoint} {i j k m : Fin t.length} {asked : Timeval}

theorem Waits.taken (h : t.Waits i client server j) (him : i < m) (hmj : m ≤ j) :
    (t.swept m).pending.lookup (client, server) = some (t.input i).tv := h.2.2 m him hmj

theorem Waits.restrict (h : t.Waits i client server j) (hik : i < k) (hkj : k ≤ j) :
    t.Waits i client server k :=
  ⟨hik, h.2.1, fun m him hmk => h.2.2 m him (le_trans hmk hkj)⟩

theorem Waits.not_empties (h : t.Waits i client server j) (him : i < m) (hmj : m < j) :
    ¬t.Empties m client server := by
  rintro ⟨-, hswept | hnext⟩
  · rw [h.taken him (le_of_lt hmj)] at hswept
    cases hswept
  · let n : Fin t.length := ⟨m + 1, by omega⟩
    have hfull := lookup_of_lookup_expire (h.taken (m := n) (Nat.lt_succ_of_lt him) hmj)
    exact absurd (hnext.symm.trans hfull) (by simp)

/-- A request that is not swept and whose slot is not emptied stays for one more input. -/
theorem lookup_succ (h : (t.swept m).pending.lookup (client, server) = some asked)
    (hkept : ¬t.Empties m client server) :
    (t.state (m + 1)).pending.lookup (client, server) = some asked := by
  have htaken : ((t.state m).pending.lookup (client, server)).isSome := by
    rw [lookup_of_lookup_expire h]
    rfl
  have hnext : (t.state (m + 1)).pending.lookup (client, server) ≠ none :=
    fun hnone => hkept ⟨htaken, Or.inr hnone⟩
  rw [t.next m] at hnext ⊢
  have hresp : ¬(t.state m).Responds (t.input m) client server := fun hr => hnext hr.lookup_next
  have hadm : ¬(t.state m).Admits (t.input m) client server := by
    intro ha
    exact absurd (ha.2.1.symm.trans h) (by simp)
  rw [lookup_next_of_not hresp hadm]
  exact h

/-- What waits at input `k` waits at a later one if the slot is not emptied in between and not by
the sweep of the later one. -/
theorem Waits.extend (h : t.Waits i client server k)
    (hkept : ∀ m, k ≤ m → m < j → ¬t.Empties m client server)
    (htaken : ((t.swept j).pending.lookup (client, server)).isSome) (hkj : k ≤ j) :
    t.Waits i client server j := by
  have hswept (n : Fin t.length) (hkn : k ≤ n) (hnj : n ≤ j) :
      ((t.swept n).pending.lookup (client, server)).isSome ∨
        (t.state n).pending.lookup (client, server) = none := by
    by_cases hn : n = j
    · exact Or.inl (hn ▸ htaken)
    · by_contra hno
      rw [not_or, Option.not_isSome_iff_eq_none] at hno
      exact hkept n hkn (lt_of_le_of_ne hnj hn) ⟨Option.isSome_iff_ne_none.mpr hno.2, Or.inl hno.1⟩
  have hstay (n : Nat) (hkn : k ≤ n) :
      ∀ hn : n < t.length, (⟨n, hn⟩ : Fin t.length) ≤ j →
        (t.swept ⟨n, hn⟩).pending.lookup (client, server) = some (t.input i).tv := by
    induction n, hkn using Nat.le_induction with
    | base => exact fun hn _ => h.taken h.1 (le_refl k)
    | succ n hkn ih =>
      intro hn hnj
      let m : Fin t.length := ⟨n, by omega⟩
      have hmj : m < j := Nat.lt_of_succ_le hnj
      have hstate := lookup_succ (ih m.isLt (le_of_lt hmj)) (hkept m hkn hmj)
      rcases hswept ⟨n + 1, hn⟩ (Nat.le_succ_of_le hkn) hnj with hsome | hnone
      · obtain ⟨asked, hasked⟩ := Option.isSome_iff_exists.mp hsome
        rw [hasked, ← lookup_of_lookup_expire hasked]
        exact hstate
      · exact absurd (hnone.symm.trans hstate) (by simp)
  refine ⟨lt_of_lt_of_le h.1 hkj, h.2.1, fun m him hmj => ?_⟩
  by_cases hmk : m ≤ k
  · exact h.taken him hmk
  · exact hstay m (le_of_lt (not_le.mp hmk)) m.isLt hmj

end Monitor.Run

namespace Capture

variable {r : Capture} {client server : Endpoint} {i j k : Fin r.packets.length}

/-- An empty SYN without ACK from the client to the server. -/
def Reopens (r : Capture) (k : Fin r.packets.length) (client server : Endpoint) : Prop :=
  (r.packet k).payloadSize = 0 ∧ (r.packet k).syn = true ∧ (r.packet k).flags &&& 0x10 = 0 ∧
    (r.packet k).src = client ∧ (r.packet k).dst = server

def Measures (r : Capture) (i : Fin r.packets.length) (client server : Endpoint)
    (j : Fin r.packets.length) : Prop :=
  r.Data j server client ∧ r.Waits i client server j ∧
    .sample server (tvDeltaUs (r.packet j).tv (r.packet i).tv) ∈ r.events j

theorem measures_iff : r.Measures i client server j ↔ r.Data j server client ∧ r.Waits i client server j :=
  ⟨fun h => ⟨h.1, h.2.1⟩, fun h => ⟨h.1, h.2, h.2.sample h.1⟩⟩

theorem exists_measures {latency : Int} (h : .sample server latency ∈ r.events j) :
    ∃ client i, r.Measures i client server j ∧
      latency = tvDeltaUs (r.packet j).tv (r.packet i).tv := by
  obtain ⟨client, i, hr, hw, hlatency⟩ := exists_waits_of_sample h
  exact ⟨client, i, measures_iff.mpr ⟨hr.1, hw⟩, hlatency⟩

theorem requests_empty (h0 : (r.packet k).payloadSize = 0) :
    (r.before (k + 1)).requests = (r.swept k).requests := by
  change (r.trace.state (k + 1)).requests = _
  rw [r.trace.next k]
  rcases (r.monitoring (Nat.le_of_lt k.isLt)).process_cases (r.packet k) with ⟨-, -, hproc⟩ |
    ⟨-, -, hproc⟩ | ⟨hne, -⟩ | ⟨hne, -⟩ | ⟨hne, -⟩
  · exact (congrArg (fun x => x.1.requests) hproc).trans (Sniffer.requests_register _ _ _)
  · exact congrArg (fun x => x.1.requests) hproc
  · exact absurd h0 hne
  · exact absurd h0 hne
  · exact absurd h0 hne

theorem waits_across_iff (h0 : (r.packet k).payloadSize = 0) (hik : i < k) (hkj : k < j) :
    r.Waits i client server j ↔ r.Waits i client server k ∧
      (∀ m, k < m → m < j → ¬r.Empties m client server) ∧ (r.slot j client server).isSome := by
  constructor
  · intro h
    have hw := waits_iff.mp h
    refine ⟨waits_iff.mpr (hw.restrict hik (le_of_lt hkj)), fun m hkm hmj => ?_, ?_⟩
    · rw [empties_iff]
      exact hw.not_empties (lt_trans hik hkm) hmj
    · have htaken := h.2.2 j h.1 (le_refl j)
      rw [← Option.isSome_map (f := Request.tv), htaken]
      rfl
  · rintro ⟨hw, hkept, htaken⟩
    refine waits_iff.mpr ((waits_iff.mp hw).extend (fun m hkm hmj => ?_) ?_ (le_of_lt hkj))
    · refine mt empties_iff.mpr ?_
      by_cases hmk : m = k
      · subst hmk
        have hslot := hw.2.2 m hik (le_refl m)
        rintro ⟨-, hnone | hnone⟩
        · rw [hnone] at hslot
          cases hslot
        · rw [requests_empty h0] at hnone
          rw [show r.slot m client server = none from hnone] at hslot
          cases hslot
      · exact hkept m (lt_of_le_of_ne hkm (Ne.symm hmk)) hmj
    · rw [lookup_swept, Option.isSome_map]
      exact htaken

/-- Every sample is the time since one request. An opening SYN leaves the pending requests alone,
and a latency spans it if and only if the request waits unanswered when the SYN comes, its slot is
not emptied up to the response, and the sweep of the response keeps it. -/
theorem latency_spans_iff (r : Capture) :
    (∀ j server latency, .sample server latency ∈ r.events j →
      ∃ client i, r.Measures i client server j ∧
        latency = tvDeltaUs (r.packet j).tv (r.packet i).tv) ∧
    ∀ k client server, r.Reopens k client server →
      (r.before (k + 1)).requests = (r.swept k).requests ∧
      ∀ i j, i < k → k < j →
        (r.Measures i client server j → r.Waits i client server k ∧
          ∀ m, i < m → m < j → ¬r.Data m server client) ∧
        (r.Measures i client server j ↔ r.Data j server client ∧ r.Waits i client server k ∧
          (∀ m, k < m → m < j → ¬r.Empties m client server) ∧ (r.slot j client server).isSome) := by
  refine ⟨fun j server latency h => exists_measures h, fun k client server hopen => ?_⟩
  refine ⟨requests_empty hopen.1, fun i j hik hkj => ?_⟩
  have hiff : r.Measures i client server j ↔ r.Data j server client ∧ r.Waits i client server k ∧
      (∀ m, k < m → m < j → ¬r.Empties m client server) ∧ (r.slot j client server).isSome := by
    rw [measures_iff, waits_across_iff hopen.1 hik hkj]
  exact ⟨fun h => ⟨(hiff.mp h).2.1, fun m him hmj => h.2.1.no_data him hmj⟩, hiff⟩

end Capture

def Packet.delayed (us : Int) (p : Packet) : Packet where
  toUserPacket := { p.toUserPacket with tv := ⟨p.tv.tvSec, p.tv.tvUsec + us⟩ }
  nonneg := p.nonneg
  readable := p.readable
  allocs := p.allocs

/-- A connection that dies with its request unanswered: the client comes back with the same port,
asks again and is answered. -/
def reconnectCapture : Capture where
  opts := redisOptions
  datalink := .raw
  packets := pingCapture.packets.take 2 ++ pingCapture.packets.map (Packet.delayed 2000)
  noScript := redisOptions_noScript
  notRaw := redisOptions_notRaw

theorem reconnectCapture_reopens : reconnectCapture.Reopens ⟨2, by decide⟩ ⟨1, 1000⟩ ⟨2, 6379⟩ := by
  rw [Capture.Reopens]
  decide

theorem reconnectCapture_sample :
    .sample ⟨2, 6379⟩ 2500 ∈ reconnectCapture.events ⟨4, by decide⟩ := by decide +kernel

theorem reconnect_spans :
    reconnectCapture.Reopens ⟨2, by decide⟩ ⟨1, 1000⟩ ⟨2, 6379⟩ ∧
      reconnectCapture.Measures ⟨1, by decide⟩ ⟨1, 1000⟩ ⟨2, 6379⟩ ⟨4, by decide⟩ := by
  obtain ⟨client, i, hm, htime⟩ := Capture.exists_measures reconnectCapture_sample
  have hall : ∀ i, (2500 : Int) = tvDeltaUs (reconnectCapture.packet ⟨4, by decide⟩).tv
      (reconnectCapture.packet i).tv → i = ⟨1, by decide⟩ := by decide +kernel
  have hc : client = ⟨1, 1000⟩ := hm.1.2.2.symm
  rw [hall i htime, hc] at hm
  exact ⟨reconnectCapture_reopens, hm⟩

theorem latency_spans_iff_reconnect :
    (reconnectCapture.before 3).requests = (reconnectCapture.swept ⟨2, by decide⟩).requests ∧
      ∃ client i, reconnectCapture.Measures i client ⟨2, 6379⟩ ⟨4, by decide⟩ := by
  obtain ⟨client, i, hm, -⟩ := reconnectCapture.latency_spans_iff.1 _ _ _ reconnectCapture_sample
  exact ⟨(reconnectCapture.latency_spans_iff.2 _ _ _ reconnectCapture_reopens).1, client, i, hm⟩

end Tcpkit
