import Mathlib.Data.List.Basic
import Mathlib.Data.Fin.Basic

/-! Finite traces of a deterministic machine: the states before and after each
input, the induction rules for invariants, and simulations between machines.
A machine that may fail runs up to its first error. -/

/-- A run over `length` inputs; `state k` is the state before input `k`. -/
structure Trace {σ ι : Type*} (step : σ → ι → σ) where
  length : Nat
  input : Fin length → ι
  state : Nat → σ
  next : ∀ k : Fin length, state (k + 1) = step (state k) (input k)

namespace Trace

variable {σ ι τ κ : Type*} {step : σ → ι → σ}

def ofList (step : σ → ι → σ) (start : σ) (xs : List ι) : Trace step where
  length := xs.length
  input := xs.get
  state n := (xs.take n).foldl step start
  next k := by
    rw [List.take_add_one, List.foldl_append, List.getElem?_eq_getElem k.isLt]
    rfl

theorem invariant (t : Trace step) {I : Nat → σ → Prop} (hstart : I 0 (t.state 0))
    (hstep : ∀ k : Fin t.length, I k (t.state k) → I (k + 1) (step (t.state k) (t.input k))) :
    ∀ n ≤ t.length, I n (t.state n) := by
  intro n
  induction n with
  | zero => exact fun _ => hstart
  | succ n ih =>
    intro hn
    rw [t.next ⟨n, hn⟩]
    exact hstep ⟨n, hn⟩ (ih (by omega))

theorem stable (t : Trace step) {P : σ → Prop} {i j : Nat} (hij : i ≤ j) (hj : j ≤ t.length)
    (hstep : ∀ k : Fin t.length, i ≤ k → k < j → P (t.state k) → P (step (t.state k) (t.input k)))
    (hi : P (t.state i)) : P (t.state j) := by
  induction j, hij using Nat.le_induction with
  | base => exact hi
  | succ j hle ih =>
    rw [t.next ⟨j, hj⟩]
    exact hstep ⟨j, hj⟩ hle (Nat.lt_succ_self j)
      (ih (by omega) fun k hk hkj => hstep k hk (by omega))

/-- A simulation carries a trace over to the machine it simulates. -/
def map {step' : τ → κ → τ} (t : Trace step) (f : σ → τ) (g : ι → κ)
    (hsim : ∀ k : Fin t.length,
      f (step (t.state k) (t.input k)) = step' (f (t.state k)) (g (t.input k))) :
    Trace step' where
  length := t.length
  input k := g (t.input k)
  state n := f (t.state n)
  next k := by rw [t.next k, hsim k]

end Trace

section Failing

variable {σ ι ε α β : Type*} {step : σ → ι → Except ε σ}

theorem bind_eq_ok {x : Except ε α} {f : α → Except ε β} {b : β} (h : x.bind f = .ok b) :
    ∃ a, x = .ok a ∧ f a = .ok b := by
  cases x with
  | error e => cases h
  | ok a => exact ⟨a, rfl, h⟩

/-- A run succeeds if and only if its inputs are safe, when a safe one never fails under the
invariant and an unsafe one always does. -/
theorem foldlM_ok_iff {I : σ → Prop} {P : ι → Prop} {xs : List ι} {s : σ} (hs : I s)
    (hsafe : ∀ s, ∀ x ∈ xs, I s → P x → ∃ s', step s x = .ok s' ∧ I s')
    (hfails : ∀ s, ∀ x ∈ xs, ∀ s', step s x = .ok s' → P x) :
    (∃ s', xs.foldlM step s = .ok s') ↔ ∀ x ∈ xs, P x := by
  induction xs generalizing s with
  | nil => simp [pure, Except.pure]
  | cons x xs ih =>
    have hrest := fun s y (hy : y ∈ xs) => hsafe s y (List.mem_cons_of_mem x hy)
    have hfailsRest := fun s y (hy : y ∈ xs) => hfails s y (List.mem_cons_of_mem x hy)
    rw [List.foldlM_cons, List.forall_mem_cons]
    cases hx : step s x with
    | error e =>
      constructor
      · rintro ⟨s', hrun⟩
        cases hrun
      · rintro ⟨hP, -⟩
        obtain ⟨s', hs', -⟩ := hsafe s x List.mem_cons_self hs hP
        rw [hs'] at hx
        cases hx
    | ok t =>
      have hP := hfails s x List.mem_cons_self t hx
      obtain ⟨s', hs', hI⟩ := hsafe s x List.mem_cons_self hs hP
      rw [hs'] at hx
      cases hx
      exact (ih hI hrest hfailsRest).trans ⟨fun h => ⟨hP, h⟩, fun h => h.2⟩

end Failing
