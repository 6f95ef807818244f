import Tcpkit.FiniteMap
import Tcpkit.Sniffer
import Tcpkit.Trace

/-! What the statistics mode is for, on finite maps: registered servers with
their counters, and for every client and server the time of the one request
that waits for an answer. Text keys, buckets and payloads do not occur. -/

namespace Tcpkit

open MachineInt

/-- What a packet means to the statistics: payload between two endpoints, a bare
SYN that names a server, or neither. -/
inductive Signal where
  | data (src dst : Endpoint) (size : UInt32)
  | opening (server : Endpoint)
  | silent
  deriving DecidableEq

/-- A packet as the monitor sees it; `stored` tells whether what it adds to a
table can be allocated. -/
structure Arrival where
  tv : Timeval
  signal : Signal
  stored : Bool
  deriving DecidableEq

structure Monitor where
  stats : Finmap fun _ : Endpoint => QueryStats
  pending : Finmap fun _ : Endpoint × Endpoint => Timeval
  lastExpire : Option Timeval

namespace Monitor

def start : Monitor := ⟨∅, ∅, none⟩

def Registered (m : Monitor) (e : Endpoint) : Prop := (m.stats.lookup e).isSome

instance (m : Monitor) (e : Endpoint) : Decidable (m.Registered e) :=
  inferInstanceAs (Decidable ((m.stats.lookup e).isSome = true))

def expire (m : Monitor) (now : Timeval) : Monitor :=
  match m.lastExpire with
  | none => { m with lastExpire := some now }
  | some last =>
    if tvDeltaUs now last < expireIntervalUs then m
    else
      { m with
        lastExpire := some now
        pending := m.pending.filterValues (fun tv => tvDeltaUs now tv ≤ requestTimeoutUs) }

def register (m : Monitor) (e : Endpoint) : Monitor :=
  { m with stats := m.stats.addNew e (QueryStats.zeroed e) }

def direction (m : Monitor) (src dst : Endpoint) : Direction :=
  if m.Registered src then .response else if m.Registered dst then .request else .unknown

def count (m : Monitor) (src dst : Endpoint) (size : UInt32) : Monitor :=
  if m.Registered src then
    { m with stats := m.stats.adjust src (fun stats => statsIncr stats false (int32 size.toNat)) }
  else
    { m with stats := m.stats.adjust dst (fun stats => statsIncr stats true (int32 size.toNat)) }

def observe (m : Monitor) (server : Endpoint) (latency : Int) : Monitor :=
  { m with stats := m.stats.adjust server (fun stats => statsObserverLatency stats latency) }

def forget (m : Monitor) (slot : Endpoint × Endpoint) : Monitor :=
  { m with pending := m.pending.erase slot }

def full (m : Monitor) : Bool := maxPendingRequests ≤ m.pending.keys.card

/-- The first request of a slot waits; later ones, and those that find the table
full, are dropped. -/
def enter (m : Monitor) (slot : Endpoint × Endpoint) (tv : Timeval) : Monitor :=
  if (m.pending.lookup slot).isSome ∨ m.full then m
  else { m with pending := m.pending.addNew slot tv }

def answer (m : Monitor) (client server : Endpoint) (tv : Timeval) :
    Monitor × List (Endpoint × Int) :=
  match m.pending.lookup (client, server) with
  | none => (m, [])
  | some asked =>
    ((m.observe server (tvDeltaUs tv asked)).forget (client, server),
      if m.Registered server then [(server, tvDeltaUs tv asked)] else [])

def step (m : Monitor) (a : Arrival) : Monitor × List (Endpoint × Int) :=
  let m := m.expire a.tv
  match a.signal with
  | .silent => (m, [])
  | .opening server => (if a.stored then m.register server else m, [])
  | .data src dst size =>
    match m.direction src dst with
    | .response => (m.count src dst size).answer dst src a.tv
    | .request =>
      let m := m.count src dst size
      (if a.stored then m.enter (src, dst) a.tv else m, [])
    | .unknown => (m.count src dst size, [])

def next (m : Monitor) (a : Arrival) : Monitor := (m.step a).1

section

variable {m : Monitor} {a : Arrival} {e src dst client server : Endpoint} {now tv : Timeval}
  {size : UInt32} {latency : Int} {slot : Endpoint × Endpoint}

@[simp]
theorem stats_expire : (m.expire now).stats = m.stats := by
  rw [expire]
  split
  · rfl
  · split <;> rfl

@[simp]
theorem registered_expire : (m.expire now).Registered e ↔ m.Registered e := by
  rw [Registered, stats_expire, Registered]

@[simp]
theorem pending_count : (m.count src dst size).pending = m.pending := by
  rw [count]
  split <;> rfl

theorem keys_stats_count : (m.count src dst size).stats.keys = m.stats.keys := by
  rw [count]
  split <;> rw [Finmap.keys_adjust]

@[simp]
theorem registered_count : (m.count src dst size).Registered e ↔ m.Registered e := by
  rw [Registered, Registered, ← Finmap.mem_keys_iff_isSome, ← Finmap.mem_keys_iff_isSome,
    keys_stats_count]

@[simp]
theorem stats_enter : (m.enter slot tv).stats = m.stats := by
  rw [enter]
  split <;> rfl

theorem pending_enter : (m.enter slot tv).pending =
    if (m.pending.lookup slot).isSome ∨ m.full then m.pending else m.pending.addNew slot tv := by
  rw [enter]
  split <;> rfl

theorem full_count : (m.count src dst size).full = m.full := by
  rw [full, pending_count, full]

theorem direction_eq_response (h : m.Registered src) : m.direction src dst = .response :=
  if_pos h

theorem direction_eq_request (hs : ¬m.Registered src) (hd : m.Registered dst) :
    m.direction src dst = .request := by
  rw [direction, if_neg hs, if_pos hd]

theorem direction_eq_unknown (hs : ¬m.Registered src) (hd : ¬m.Registered dst) :
    m.direction src dst = .unknown := by
  rw [direction, if_neg hs, if_neg hd]

def Responds (m : Monitor) (a : Arrival) (client server : Endpoint) : Prop :=
  ∃ size, a.signal = .data server client size ∧ m.Registered server

def Requests (m : Monitor) (a : Arrival) (client server : Endpoint) : Prop :=
  ∃ size, a.signal = .data client server size ∧ ¬m.Registered client ∧ m.Registered server

def Admits (m : Monitor) (a : Arrival) (client server : Endpoint) : Prop :=
  m.Requests a client server ∧ (m.expire a.tv).pending.lookup (client, server) = none ∧
    (m.expire a.tv).full = false ∧ a.stored = true

theorem step_response (ha : a.signal = .data src dst size) (h : m.Registered src) :
    m.step a = ((m.expire a.tv).count src dst size).answer dst src a.tv := by
  simp only [step, ha, direction_eq_response (registered_expire.mpr h)]

theorem step_request (ha : a.signal = .data src dst size) (hs : ¬m.Registered src)
    (hd : m.Registered dst) :
    m.step a = (if a.stored then ((m.expire a.tv).count src dst size).enter (src, dst) a.tv
      else (m.expire a.tv).count src dst size, []) := by
  simp only [step, ha, direction_eq_request (mt registered_expire.mp hs) (registered_expire.mpr hd)]

theorem step_unknown (ha : a.signal = .data src dst size) (hs : ¬m.Registered src)
    (hd : ¬m.Registered dst) : m.step a = ((m.expire a.tv).count src dst size, []) := by
  simp only [step, ha,
    direction_eq_unknown (mt registered_expire.mp hs) (mt registered_expire.mp hd)]

theorem step_silent (ha : a.signal = .silent) : m.step a = (m.expire a.tv, []) := by
  simp only [step, ha]

theorem step_opening (ha : a.signal = .opening server) :
    m.step a =
      (if a.stored then (m.expire a.tv).register server else m.expire a.tv, []) := by
  simp only [step, ha]

theorem answer_of_lookup_none (h : m.pending.lookup (client, server) = none) :
    m.answer client server tv = (m, []) := by
  simp only [answer, h]

theorem answer_of_lookup_some {asked : Timeval} (hr : m.Registered server)
    (h : m.pending.lookup (client, server) = some asked) :
    m.answer client server tv =
      ((m.observe server (tvDeltaUs tv asked)).forget (client, server),
        [(server, tvDeltaUs tv asked)]) := by
  simp only [answer, h, if_pos hr]

/-- Everything a step can do: it leaves the slots alone, admits a request to its
slot, finds no request to answer, or answers one. -/
theorem step_cases (m : Monitor) (a : Arrival) :
    ((m.step a).1.pending = (m.expire a.tv).pending ∧ (m.step a).2 = [] ∧
      (∀ client server, ¬m.Responds a client server) ∧
      ∀ client server, ¬m.Admits a client server) ∨
    (∃ client server, m.Admits a client server ∧
      (m.step a).1.pending = (m.expire a.tv).pending.addNew (client, server) a.tv ∧
      (m.step a).2 = []) ∨
    (∃ client server, m.Responds a client server ∧
      (m.expire a.tv).pending.lookup (client, server) = none ∧
      (m.step a).1.pending = (m.expire a.tv).pending ∧ (m.step a).2 = []) ∨
    ∃ client server asked, m.Responds a client server ∧
      (m.expire a.tv).pending.lookup (client, server) = some asked ∧
      (m.step a).1.pending = (m.expire a.tv).pending.erase (client, server) ∧
      (m.step a).2 = [(server, tvDeltaUs a.tv asked)] := by
  cases ha : a.signal with
  | silent =>
    rw [step_silent ha]
    exact Or.inl ⟨rfl, rfl, by simp [Responds, ha], by simp [Admits, Requests, ha]⟩
  | opening server =>
    rw [step_opening ha]
    refine Or.inl ⟨?_, rfl, by simp [Responds, ha], by simp [Admits, Requests, ha]⟩
    cases a.stored <;> rfl
  | data src dst size =>
    by_cases hs : m.Registered src
    · have hresp : m.Responds a dst src := ⟨size, ha, hs⟩
      rw [step_response ha hs]
      cases hl : (m.expire a.tv).pending.lookup (dst, src) with
      | none =>
        refine Or.inr (Or.inr (Or.inl ⟨dst, src, hresp, hl, ?_⟩))
        rw [answer_of_lookup_none (by rw [pending_count, hl])]
        exact ⟨pending_count, rfl⟩
      | some asked =>
        refine Or.inr (Or.inr (Or.inr ⟨dst, src, asked, hresp, hl, ?_⟩))
        rw [answer_of_lookup_some (registered_count.mpr (registered_expire.mpr hs))
          (by rw [pending_count, hl])]
        simp [forget, observe]
    · have hno (client server : Endpoint) : ¬m.Responds a client server := by
        intro hh
        rcases hh with ⟨n, he, hr⟩
        rw [ha] at he
        cases he
        exact hs hr
      by_cases hd : m.Registered dst
      · rw [step_request ha hs hd]
        by_cases hb : (m.expire a.tv).pending.lookup (src, dst) = none ∧
            (m.expire a.tv).full = false ∧ a.stored = true
        · refine Or.inr (Or.inl ⟨src, dst, ⟨⟨size, ha, hs, hd⟩, hb⟩, ?_, rfl⟩)
          rw [if_pos hb.2.2, pending_enter, pending_count, full_count, hb.1, hb.2.1]
          rfl
        · refine Or.inl ⟨?_, rfl, hno, ?_⟩
          · split
            · rename_i hstored
              rw [pending_enter, pending_count, full_count, if_pos]
              by_contra hfree
              rw [not_or, Option.not_isSome_iff_eq_none, Bool.not_eq_true] at hfree
              exact hb ⟨hfree.1, hfree.2, hstored⟩
            · exact pending_count
          · rintro client server ⟨⟨n, he, -, -⟩, hfree⟩
            rw [ha] at he
            cases he
            exact hb hfree
      · rw [step_unknown ha hs hd]
        refine Or.inl ⟨pending_count, rfl, hno, ?_⟩
        rintro client server ⟨⟨n, he, -, hr⟩, -⟩
        rw [ha] at he
        cases he
        exact hd hr

theorem Responds.unique {client' server' : Endpoint} (h : m.Responds a client server)
    (h' : m.Responds a client' server') : client = client' ∧ server = server' := by
  obtain ⟨n, he, -⟩ := h
  obtain ⟨n', he', -⟩ := h'
  rw [he] at he'
  cases he'
  exact ⟨rfl, rfl⟩

theorem Requests.not_responds {client' server' : Endpoint} (h : m.Requests a client server) :
    ¬m.Responds a client' server' := by
  obtain ⟨n, he, hc, -⟩ := h
  intro hh
  rcases hh with ⟨n', he', hr⟩
  rw [he] at he'
  cases he'
  exact hc hr

theorem Requests.unique {client' server' : Endpoint} (h : m.Requests a client server)
    (h' : m.Requests a client' server') : client = client' ∧ server = server' := by
  obtain ⟨n, he, -⟩ := h
  obtain ⟨n', he', -⟩ := h'
  rw [he] at he'
  cases he'
  exact ⟨rfl, rfl⟩

theorem Responds.lookup_next (h : m.Responds a client server) :
    (m.next a).pending.lookup (client, server) = none := by
  rcases step_cases m a with ⟨-, -, hno, -⟩ | ⟨c, s, hadm, -, -⟩ | ⟨c, s, hr, hl, hp, -⟩ |
    ⟨c, s, asked, hr, hl, hp, -⟩
  · exact absurd h (hno _ _)
  · exact absurd h hadm.1.not_responds
  · obtain ⟨rfl, rfl⟩ := h.unique hr
    rw [next, hp, hl]
  · obtain ⟨rfl, rfl⟩ := h.unique hr
    rw [next, hp, Finmap.lookup_erase]

theorem Admits.lookup_next (h : m.Admits a client server) :
    (m.next a).pending.lookup (client, server) = some a.tv := by
  rcases step_cases m a with ⟨-, -, -, hno⟩ | ⟨c, s, hadm, hp, -⟩ | ⟨c, s, hr, -⟩ |
    ⟨c, s, asked, hr, -⟩
  · exact absurd h (hno _ _)
  · obtain ⟨rfl, rfl⟩ := h.1.unique hadm.1
    rw [next, hp, Finmap.lookup_addNew, if_pos rfl, hadm.2.1, Option.getD_none]
  · exact absurd hr h.1.not_responds
  · exact absurd hr h.1.not_responds

theorem lookup_next_of_not (hr : ¬m.Responds a client server) (ha : ¬m.Admits a client server) :
    (m.next a).pending.lookup (client, server) =
      (m.expire a.tv).pending.lookup (client, server) := by
  rcases step_cases m a with ⟨hp, -⟩ | ⟨c, s, hadm, hp, -⟩ | ⟨c, s, -, -, hp, -⟩ |
    ⟨c, s, asked, hresp, -, hp, -⟩
  · rw [next, hp]
  · have hne : (client, server) ≠ (c, s) := by
      intro hh
      rcases hh with ⟨⟩
      exact ha hadm
    rw [next, hp, Finmap.lookup_addNew, if_neg hne]
  · rw [next, hp]
  · have hne : (client, server) ≠ (c, s) := by
      intro hh
      rcases hh with ⟨⟩
      exact hr hresp
    rw [next, hp, Finmap.lookup_erase_ne hne]

theorem mem_samples_iff : (server, latency) ∈ (m.step a).2 ↔
    ∃ client asked, m.Responds a client server ∧
      (m.expire a.tv).pending.lookup (client, server) = some asked ∧
      latency = tvDeltaUs a.tv asked := by
  constructor
  · intro h
    rcases step_cases m a with ⟨-, hs, -⟩ | ⟨c, s, -, -, hs⟩ | ⟨c, s, -, -, -, hs⟩ |
      ⟨c, s, asked, hr, hl, -, hs⟩
    · simp [hs] at h
    · simp [hs] at h
    · simp [hs] at h
    · rw [hs, List.mem_singleton] at h
      cases h
      exact ⟨c, asked, hr, hl, rfl⟩
  · intro hh
    rcases hh with ⟨client, asked, hr, hl, rfl⟩
    rcases step_cases m a with ⟨-, -, hno, -⟩ | ⟨c, s, hadm, -⟩ | ⟨c, s, hr', hl', -, hs⟩ |
      ⟨c, s, asked', hr', hl', -, hs⟩
    · exact absurd hr (hno _ _)
    · exact absurd hr hadm.1.not_responds
    · obtain ⟨rfl, rfl⟩ := hr.unique hr'
      rw [hl] at hl'
      cases hl'
    · obtain ⟨rfl, rfl⟩ := hr.unique hr'
      rw [hl] at hl'
      cases hl'
      simp [hs]

theorem length_samples_le (m : Monitor) (a : Arrival) : (m.step a).2.length ≤ 1 := by
  rcases step_cases m a with ⟨-, hs, -⟩ | ⟨c, s, -, -, hs⟩ | ⟨c, s, -, -, -, hs⟩ |
    ⟨c, s, asked, -, -, -, hs⟩ <;> simp [hs]

theorem lookup_expire_of_le {asked : Timeval} (h : m.pending.lookup slot = some asked)
    (hle : tvDeltaUs now asked ≤ requestTimeoutUs) :
    (m.expire now).pending.lookup slot = some asked := by
  rw [expire]
  split
  · exact h
  · split
    · exact h
    · rw [Finmap.lookup_filterValues, h, Option.filter_some, if_pos (decide_eq_true hle)]

theorem lookup_of_lookup_expire {asked : Timeval}
    (h : (m.expire now).pending.lookup slot = some asked) : m.pending.lookup slot = some asked := by
  unfold expire at h
  split at h
  · exact h
  · split at h
    · exact h
    · rw [Finmap.lookup_filterValues] at h
      exact (Option.filter_eq_some_iff.mp h).1

theorem keys_stats_answer : (m.answer client server tv).1.stats.keys = m.stats.keys := by
  rw [answer]
  split
  · rfl
  · rw [forget, observe, Finmap.keys_adjust]

theorem registered_next_iff :
    (m.next a).Registered e ↔ m.Registered e ∨ a.signal = .opening e ∧ a.stored = true := by
  simp only [Registered, ← Finmap.mem_keys_iff_isSome, next]
  cases ha : a.signal with
  | silent =>
    rw [step_silent ha, stats_expire]
    simp
  | opening server =>
    rw [step_opening ha]
    cases hstored : a.stored with
    | false => simp
    | true =>
      simp only [if_true, register, Finmap.keys_addNew, stats_expire, Finset.mem_insert,
        Signal.opening.injEq, and_true]
      rw [or_comm, eq_comm]
  | data src dst size =>
    by_cases hs : m.Registered src
    · rw [step_response ha hs, keys_stats_answer, keys_stats_count, stats_expire]
      simp
    · by_cases hd : m.Registered dst
      · rw [step_request ha hs hd, apply_ite stats, stats_enter, ite_self, keys_stats_count,
          stats_expire]
        simp
      · rw [step_unknown ha hs hd, keys_stats_count, stats_expire]
        simp

theorem Registered.next (h : m.Registered e) (a : Arrival) : (m.next a).Registered e :=
  registered_next_iff.mpr (Or.inl h)

def counted (m : Monitor) (src dst : Endpoint) : Endpoint := if m.Registered src then src else dst

theorem stats_count : (m.count src dst size).stats = m.stats.adjust (m.counted src dst)
    (fun stats => statsIncr stats (decide ¬m.Registered src) (int32 size.toNat)) := by
  rw [count, counted]
  by_cases hs : m.Registered src
  · simp [hs]
  · simp [hs]

/-- A data packet changes the counters of one endpoint at most, by one increment
and perhaps a latency sample. -/
theorem lookup_stats_data (ha : a.signal = .data src dst size) :
    ∃ f : QueryStats → QueryStats,
      (∀ e, (m.next a).stats.lookup e =
        if e = m.counted src dst then (m.stats.lookup e).map f else m.stats.lookup e) ∧
      ((∀ stats, f stats = statsIncr stats (decide ¬m.Registered src) (int32 size.toNat)) ∨
        ∃ latency, ∀ stats, f stats = statsObserverLatency
          (statsIncr stats (decide ¬m.Registered src) (int32 size.toNat)) latency) := by
  let g (stats : QueryStats) := statsIncr stats (decide ¬m.Registered src) (int32 size.toNat)
  have hcounted : (m.expire a.tv).counted src dst = m.counted src dst := by
    simp only [counted, registered_expire]
  have hcount (e : Endpoint) : ((m.expire a.tv).count src dst size).stats.lookup e =
      if e = m.counted src dst then (m.stats.lookup e).map g else m.stats.lookup e := by
    rw [stats_count, Finmap.lookup_adjust, hcounted, stats_expire]
    simp only [registered_expire, g]
    by_cases he : e = m.counted src dst
    · subst he
      simp
    · simp [he]
  by_cases hs : m.Registered src
  · rw [Monitor.next, step_response ha hs]
    cases hl : (m.expire a.tv).pending.lookup (dst, src) with
    | none =>
      rw [answer_of_lookup_none (by rw [pending_count, hl])]
      exact ⟨g, hcount, Or.inl fun _ => rfl⟩
    | some asked =>
      rw [answer_of_lookup_some (registered_count.mpr (registered_expire.mpr hs))
        (by rw [pending_count, hl])]
      refine ⟨fun stats => statsObserverLatency (g stats) (tvDeltaUs a.tv asked), fun e => ?_,
        Or.inr ⟨_, fun _ => rfl⟩⟩
      have hsrc : m.counted src dst = src := if_pos hs
      rw [forget, observe, Finmap.lookup_adjust, hcount, hcount, hsrc]
      by_cases he : e = src
      · subst he
        simp [Function.comp_def]
      · simp [he]
  · refine ⟨g, ?_, Or.inl fun _ => rfl⟩
    by_cases hd : m.Registered dst
    · rw [Monitor.next, step_request ha hs hd, apply_ite stats, stats_enter, ite_self]
      exact hcount
    · rw [Monitor.next, step_unknown ha hs hd]
      exact hcount

theorem lookup_stats_silent (ha : a.signal = .silent) :
    (m.next a).stats.lookup e = m.stats.lookup e := by
  rw [Monitor.next, step_silent ha, stats_expire]

theorem lookup_stats_opening (ha : a.signal = .opening server) :
    (m.next a).stats.lookup e =
      if e = server ∧ a.stored then some ((m.stats.lookup e).getD (QueryStats.zeroed server))
      else m.stats.lookup e := by
  rw [Monitor.next, step_opening ha]
  cases hstored : a.stored with
  | false => simp
  | true =>
    rw [if_pos rfl, register, Finmap.lookup_addNew, stats_expire]
    by_cases he : e = server
    · subst he
      simp
    · simp [he]

/-- Only a handshake puts an endpoint into the table. -/
theorem lookup_stats_of_none (h : m.stats.lookup e = none) :
    (m.next a).stats.lookup e = none ∨
      a.signal = .opening e ∧ (m.next a).stats.lookup e = some (QueryStats.zeroed e) := by
  cases ha : a.signal with
  | silent => exact Or.inl ((lookup_stats_silent ha).trans h)
  | opening server =>
    rw [lookup_stats_opening ha, h]
    by_cases he : e = server ∧ a.stored
    · rw [if_pos he, ← he.1]
      exact Or.inr ⟨rfl, rfl⟩
    · exact Or.inl (if_neg he)
  | data src dst size =>
    obtain ⟨f, hlook, -⟩ := lookup_stats_data (m := m) ha
    rw [hlook, h, Option.map_none, ite_self]
    exact Or.inl rfl

end

end Monitor

end Tcpkit
