import Mathlib.Algebra.BigOperators.Fin
import Mathlib.Algebra.Order.BigOperators.Group.Finset
import Tcpkit.MachineInt

/-! The counters and the latency histogram of `stats.c`, with every counter an
unsigned 64-bit integer. -/

namespace Tcpkit

open MachineInt

/-- An address as `in_addr.s_addr` holds it and a port in host order. -/
structure Endpoint where
  ip : UInt32
  port : UInt16
  deriving DecidableEq

structure QueryStats where
  requestBytes : Nat
  responseBytes : Nat
  requests : Nat
  responses : Nat
  buckets : Fin 18 → Nat
  endpoint : Endpoint

def QueryStats.zeroed (e : Endpoint) : QueryStats :=
  ⟨0, 0, 0, 0, fun _ => 0, e⟩

/-- Inclusive upper bounds in microseconds; the last row catches the rest. -/
def latencyBuckets : List (Int × String) :=
  [(100, "<0.1ms"), (200, "0.1ms~0.2ms"), (500, "0.2~0.5ms"), (1000, "0.5ms~1ms"),
   (5000, "1ms~5ms"), (10000, "5ms~10ms"), (20000, "10ms~20ms"), (50000, "20ms~50ms"),
   (100000, "50ms~100ms"), (200000, "100ms~200ms"), (500000, "200ms~500ms"),
   (1000000, "0.5s~1s"), (2000000, "1s~2s"), (3000000, "2s~3s"), (5000000, "3s~5s"),
   (10000000, "5s~10s"), (20000000, "10s~20s"), (0, "+inf")]

/-- `bytes` is an `int`, so a frame of `2 ^ 31` bytes or more counts negative. -/
def statsIncr (stats : QueryStats) (isRequest : Bool) (bytes : Int) : QueryStats :=
  if isRequest then
    { stats with
      requests := uint64 (stats.requests + 1)
      requestBytes := uint64 (stats.requestBytes + bytes) }
  else
    { stats with
      responses := uint64 (stats.responses + 1)
      responseBytes := uint64 (stats.responseBytes + bytes) }

/-- The first row from `i` on whose bound reaches the latency. The bound of the
last row is a sentinel that is never compared. -/
def latencyRow (latency : Int) : List (Int × String) → Nat → Nat
  | [], i => i
  | [_], i => i
  | (upper, _) :: rest, i => if upper ≥ latency then i else latencyRow latency rest (i + 1)

theorem latencyRow_lt (latency : Int) (rows : List (Int × String)) (i : Nat) (h : rows ≠ []) :
    latencyRow latency rows i < i + rows.length := by
  induction rows generalizing i with
  | nil => exact absurd rfl h
  | cons row rest ih =>
    cases rest with
    | nil => simp [latencyRow]
    | cons next rest =>
      have hh := ih (i + 1) (by simp)
      simp only [latencyRow, List.length_cons] at hh ⊢
      split <;> omega

def latencyBucket (latency : Int) : Fin 18 :=
  ⟨latencyRow (if latency < 0 then 0 else latency) latencyBuckets 0,
    latencyRow_lt _ latencyBuckets 0 (by simp [latencyBuckets])⟩

def statsObserverLatency (stats : QueryStats) (latency : Int) : QueryStats :=
  let i := latencyBucket latency
  { stats with buckets := Function.update stats.buckets i (uint64 (stats.buckets i + 1)) }

namespace QueryStats

def samples (stats : QueryStats) : Nat := ∑ i, stats.buckets i

theorem samples_zeroed (e : Endpoint) : (zeroed e).samples = 0 := by
  simp [samples, zeroed]

theorem samples_statsIncr (stats : QueryStats) (isRequest : Bool) (bytes : Int) :
    (statsIncr stats isRequest bytes).samples = stats.samples := by
  cases isRequest <;> rfl

section

variable (stats : QueryStats) (bytes latency : Int)

@[simp]
theorem requests_response : (statsIncr stats false bytes).requests = stats.requests := rfl

@[simp]
theorem responses_request : (statsIncr stats true bytes).responses = stats.responses := rfl

@[simp]
theorem requests_observer : (statsObserverLatency stats latency).requests = stats.requests := rfl

@[simp]
theorem responses_observer : (statsObserverLatency stats latency).responses = stats.responses := rfl

theorem uint64_succ {n : Nat} (h : n + 1 < 2 ^ 64) : uint64 ((n : Int) + 1) = n + 1 := by
  have hh := uint64_of_lt h
  push_cast at hh
  exact hh

variable {stats}

theorem requests_request (h : stats.requests + 1 < 2 ^ 64) :
    (statsIncr stats true bytes).requests = stats.requests + 1 :=
  uint64_succ h

theorem responses_response (h : stats.responses + 1 < 2 ^ 64) :
    (statsIncr stats false bytes).responses = stats.responses + 1 :=
  uint64_succ h

end

theorem bucket_le_samples (stats : QueryStats) (i : Fin 18) : stats.buckets i ≤ stats.samples :=
  Finset.single_le_sum (fun j _ => Nat.zero_le (stats.buckets j)) (Finset.mem_univ i)

theorem samples_observer {stats : QueryStats} (latency : Int) (h : stats.samples + 1 < 2 ^ 64) :
    (statsObserverLatency stats latency).samples = stats.samples + 1 := by
  let i := latencyBucket latency
  have hi := stats.bucket_le_samples i
  have hu : uint64 (stats.buckets i + 1) = stats.buckets i + 1 := uint64_succ (by omega)
  have hsum : stats.samples = stats.buckets i + ∑ j ∈ Finset.univ \ {i}, stats.buckets j :=
    Finset.sum_eq_add_sum_sdiff_singleton_of_mem (Finset.mem_univ i) _
  have hnew : (statsObserverLatency stats latency).samples =
      uint64 (stats.buckets i + 1) + ∑ j ∈ Finset.univ \ {i}, stats.buckets j :=
    Finset.sum_update_of_mem (Finset.mem_univ i) _ _
  omega

end QueryStats

end Tcpkit
