import Mathlib.Data.List.Count
import Tcpkit.Stats

/-! The latency histogram over whole sequences of observations: each bucket
counts the latencies between its bounds. -/

namespace Tcpkit

open MachineInt

def upperUs (i : Fin 18) : Int := (latencyBuckets.get i).1

/-- The bound of the row before; a clamped latency is above `-1`. -/
def lowerUs (i : Fin 18) : Int := if i = 0 then -1 else upperUs (i - 1)

def observeAll (stats : QueryStats) (latencies : List Int) : QueryStats :=
  latencies.foldl statsObserverLatency stats

theorem latencyRow_eq_findIdx (latency : Int) (rows : List (Int × String)) (last : Int × String)
    (i : Nat) :
    latencyRow latency (rows ++ [last]) i = i + rows.findIdx (fun row => row.1 ≥ latency) := by
  induction rows generalizing i with
  | nil => rfl
  | cons row rows ih =>
    have hne : rows ++ [last] ≠ [] := by simp
    obtain ⟨next, rest, hrest⟩ := List.exists_cons_of_ne_nil hne
    have hh := ih (i + 1)
    rw [hrest] at hh
    rw [List.cons_append, hrest, latencyRow, List.findIdx_cons, hh]
    · by_cases hr : row.1 ≥ latency
      · simp [hr]
      · simp [hr]
        omega
    · simp

/-- The rows that are compared. -/
def boundedRows : List (Int × String) := latencyBuckets.take 17

theorem latencyBucket_eq_findIdx (latency : Int) :
    (latencyBucket latency : Nat) = boundedRows.findIdx (fun row => row.1 ≥ max latency 0) := by
  have hclamp : (if latency < 0 then 0 else latency) = max latency 0 := by
    split <;> omega
  have hrows : latencyBuckets = boundedRows ++ [(0, "+inf")] := rfl
  have hrow := latencyRow_eq_findIdx (max latency 0) boundedRows (0, "+inf") 0
  rw [Nat.zero_add, ← hrows] at hrow
  simp only [latencyBucket, hclamp, hrow]

theorem upperUs_le_lowerUs : ∀ i j : Fin 18, j < i → upperUs j ≤ lowerUs i := by decide

theorem lowerUs_lt_iff (i : Fin 18) {l : Int} (hl : 0 ≤ l) :
    lowerUs i < l ↔ ∀ j < i, upperUs j < l := by
  constructor
  · intro h j hj
    exact (upperUs_le_lowerUs i j hj).trans_lt h
  · intro h
    rw [lowerUs]
    split
    · omega
    · rename_i hi
      refine h (i - 1) ?_
      have hpos : (i : Nat) ≠ 0 := fun h0 => hi (Fin.ext h0)
      rw [Fin.lt_def, Fin.sub_val_of_le (Fin.one_le_of_ne_zero hi)]
      simp
      omega

theorem upperUs_eq {j : Nat} (h : j < boundedRows.length) (h' : j < 18) :
    upperUs ⟨j, h'⟩ = (boundedRows.get ⟨j, h⟩).1 := by
  simp only [upperUs, boundedRows, List.get_eq_getElem, List.getElem_take]
  rfl

theorem latencyBucket_eq_iff (latency : Int) (i : Fin 18) :
    latencyBucket latency = i ↔
      lowerUs i < max latency 0 ∧ ((i : Nat) < 17 → max latency 0 ≤ upperUs i) := by
  have hlength : boundedRows.length = 17 := rfl
  rw [lowerUs_lt_iff i (by omega), Fin.ext_iff, latencyBucket_eq_findIdx]
  obtain ⟨i, hi⟩ := i
  generalize max latency 0 = l
  rcases Nat.lt_or_ge i boundedRows.length with h | h
  · rw [List.findIdx_eq h]
    simp only [decide_eq_true_iff, decide_eq_false_iff_not, not_le, ge_iff_le]
    constructor
    · rintro ⟨hrow, hbefore⟩
      refine ⟨fun j hj => ?_, fun _ => ?_⟩
      · rw [upperUs_eq (lt_trans (Fin.lt_def.mp hj) h) j.isLt]
        exact hbefore j hj
      · rw [upperUs_eq h]
        exact hrow
    · rintro ⟨hbefore, hrow⟩
      rw [upperUs_eq h] at hrow
      refine ⟨hrow (hlength ▸ h), fun j hj => ?_⟩
      have hh := hbefore ⟨j, by omega⟩ hj
      rw [upperUs_eq (lt_trans hj h)] at hh
      exact hh
  · have hlast : i = boundedRows.length := by omega
    subst hlast
    rw [List.findIdx_eq_length]
    simp only [decide_eq_false_iff_not, not_le, ge_iff_le]
    constructor
    · intro hall
      refine ⟨fun j hj => ?_, fun hlt => absurd hlt (by omega)⟩
      rw [upperUs_eq (Fin.lt_def.mp hj) j.isLt]
      exact hall _ (List.get_mem _ _)
    · rintro ⟨hall, -⟩ row hrow
      obtain ⟨j, rfl⟩ := List.get_of_mem hrow
      have hh := hall ⟨j, by omega⟩ j.isLt
      rw [upperUs_eq j.isLt] at hh
      exact hh

/-- A longer wait is never counted in an earlier bucket. -/
theorem latencyBucket_mono {l l' : Int} (h : l ≤ l') : latencyBucket l ≤ latencyBucket l' := by
  by_contra hlt
  rw [not_le] at hlt
  have hl := ((latencyBucket_eq_iff l _).mp rfl).1
  have hl' := ((latencyBucket_eq_iff l' _).mp rfl).2 (by omega)
  have hh := upperUs_le_lowerUs _ _ hlt
  omega

theorem observeAll_cons (stats : QueryStats) (l : Int) (ls : List Int) :
    observeAll stats (l :: ls) = observeAll (statsObserverLatency stats l) ls := rfl

theorem buckets_observer {stats : QueryStats} (latency : Int) (i : Fin 18)
    (h : stats.buckets i + 1 < 2 ^ 64) :
    (statsObserverLatency stats latency).buckets i =
      stats.buckets i + if latencyBucket latency = i then 1 else 0 := by
  by_cases hi : latencyBucket latency = i
  · subst hi
    rw [if_pos rfl]
    exact (Function.update_self _ _ _).trans (QueryStats.uint64_succ h)
  · rw [if_neg hi, Nat.add_zero]
    exact Function.update_of_ne (Ne.symm hi) _ _

theorem buckets_observeAll {stats : QueryStats} {ls : List Int} (i : Fin 18)
    (h : stats.buckets i + ls.length < 2 ^ 64) :
    (observeAll stats ls).buckets i = stats.buckets i + ls.countP (fun l => latencyBucket l = i) := by
  induction ls generalizing stats with
  | nil => rfl
  | cons l ls ih =>
    rw [List.length_cons] at h
    have hstep := buckets_observer l i (show stats.buckets i + 1 < 2 ^ 64 by omega)
    have hle : (statsObserverLatency stats l).buckets i ≤ stats.buckets i + 1 := by
      rw [hstep]
      split <;> omega
    rw [observeAll_cons, ih (by omega), hstep, List.countP_cons]
    simp only [decide_eq_true_iff]
    omega

theorem samples_observeAll {stats : QueryStats} {ls : List Int} (h : stats.samples + ls.length < 2 ^ 64) :
    (observeAll stats ls).samples = stats.samples + ls.length := by
  induction ls generalizing stats with
  | nil => exact (Nat.add_zero _).symm
  | cons l ls ih =>
    rw [List.length_cons] at h
    have hstep := QueryStats.samples_observer l (show stats.samples + 1 < 2 ^ 64 by omega)
    rw [observeAll_cons, ih (by omega), hstep, List.length_cons]
    omega

theorem observeAll_eq (stats : QueryStats) (ls : List Int) :
    observeAll stats ls = { stats with buckets := (observeAll stats ls).buckets } := by
  induction ls generalizing stats with
  | nil => rfl
  | cons l ls ih =>
    rw [observeAll_cons, ih]
    rfl

/-- From a zeroed record, in whatever order fewer than `2 ^ 64` latencies of any sign are
observed: every bucket counts the latencies between its bounds, the last one those above
20 s, and nothing else changes. -/
theorem histogram_counts_latencies (e : Endpoint) (ls : List Int) (h : ls.length < 2 ^ 64) :
    (∀ i : Fin 18, (i : Nat) < 17 → (observeAll (QueryStats.zeroed e) ls).buckets i =
      ls.countP (fun l => lowerUs i < max l 0 ∧ max l 0 ≤ upperUs i)) ∧
    (observeAll (QueryStats.zeroed e) ls).buckets 17 = ls.countP (fun l => 20000000 < l) ∧
    ∑ i, (observeAll (QueryStats.zeroed e) ls).buckets i = ls.length ∧
    (∀ ls' : List Int, ls'.Perm ls →
      observeAll (QueryStats.zeroed e) ls' = observeAll (QueryStats.zeroed e) ls) ∧
    (∀ l l' : Int, l ≤ l' → latencyBucket l ≤ latencyBucket l') ∧
    observeAll (QueryStats.zeroed e) ls = { QueryStats.zeroed e with
      buckets := (observeAll (QueryStats.zeroed e) ls).buckets } := by
  have hbuckets (ls : List Int) (h : ls.length < 2 ^ 64) (i : Fin 18) :
      (observeAll (QueryStats.zeroed e) ls).buckets i = ls.countP (fun l => latencyBucket l = i) := by
    have hzero : (QueryStats.zeroed e).buckets i + ls.length < 2 ^ 64 := by
      rw [show (QueryStats.zeroed e).buckets i = 0 from rfl]
      omega
    have hh := buckets_observeAll i hzero
    exact hh.trans (Nat.zero_add _)
  refine ⟨fun i hi => ?_, ?_, ?_, fun ls' hperm => ?_, fun l l' => latencyBucket_mono, observeAll_eq _ _⟩
  · rw [hbuckets ls h]
    congr 1
    funext l
    rw [decide_eq_decide, latencyBucket_eq_iff]
    exact and_congr_right fun _ => ⟨fun hle => hle hi, fun hle _ => hle⟩
  · rw [hbuckets ls h]
    congr 1
    funext l
    have hlower : lowerUs 17 = 20000000 := by decide
    rw [decide_eq_decide, latencyBucket_eq_iff, hlower]
    exact ⟨fun hh => by omega, fun hh => ⟨by omega, fun hlt => absurd hlt (by decide)⟩⟩
  · have hzero := QueryStats.samples_zeroed e
    exact (samples_observeAll (by omega)).trans (by omega)
  · rw [observeAll_eq _ ls', observeAll_eq _ ls]
    congr 1
    funext i
    rw [hbuckets ls h, hbuckets ls' (hperm.length_eq ▸ h)]
    exact hperm.countP_eq _

theorem histogram_counts_latencies_sign :
    (observeAll (QueryStats.zeroed ⟨1, 6379⟩) [-5, 100, 101]).buckets 0 = 2 := by
  have hcounts := (histogram_counts_latencies ⟨1, 6379⟩ [-5, 100, 101] (by decide)).1 0 (by decide)
  rw [hcounts]
  decide

end Tcpkit
