import Mathlib.Algebra.Order.Group.Multiset
import Mathlib.Tactic.Abel
import Tcpkit.NodeChains

/-! Routines over a memory of blocks that are allocated, read, replaced and freed by address, with the
cells a routine owns as a sum. An access to an address that is not in use has no outcome. -/

/-- `calls` counts what was asked of the allocator. -/
structure Memory (ν β : Type) where
  blocks : Finmap fun _ : ν => β
  calls : Nat

abbrev Cells (ν β : Type) := Multiset (Σ _ : ν, β)

abbrev Routine (ν β α : Type) := StateT (Memory ν β) Option α

namespace Memory

variable {ν β α γ : Type}

def cells (m : Memory ν β) : Cells ν β := m.blocks.entries

def cell (n : ν) (b : β) : Cells ν β := {⟨n, b⟩}

def fault : Routine ν β α := fun _ => none

section Routines

variable [DecidableEq ν]

def load (n : ν) : Routine ν β β := fun m => (m.blocks.lookup n).map fun b => (b, m)

def store (n : ν) (b : β) : Routine ν β Unit := fun m =>
  (m.blocks.lookup n).map fun _ => ((), { m with blocks := m.blocks.insert n b })

def free (n : ν) : Routine ν β Unit := fun m =>
  (m.blocks.lookup n).map fun _ => ((), { m with blocks := m.blocks.erase n })

/-- The answers of the allocator, call by call; none for NULL. -/
abbrev Allocator (ν : Type) := Nat → Option (NodeStore.Malloc ν)

def alloc (malloc : Allocator ν) (b : β) : Routine ν β (Option ν) := fun m =>
  match malloc m.calls with
  | none => some (none, { m with calls := m.calls + 1 })
  | some answer =>
    some (some (answer.fresh m.blocks.keys),
      ⟨m.blocks.insert (answer.fresh m.blocks.keys) b, m.calls + 1⟩)

def release : Option ν → Routine ν β Unit
  | none => pure ()
  | some n => free n

end Routines

/-- So many steps lead over every chain of distinct blocks. -/
def size : Routine ν β Nat := fun m => some (Multiset.card m.cells, m)

def Refuses (malloc : Allocator ν) : Prop := ∃ k, malloc k = none

section Entries

variable [DecidableEq ν] {s : Finmap fun _ : ν => β} {n : ν} {b : β} {rest : Cells ν β}

theorem lookup_of_entries (h : s.entries = cell n b + rest) : s.lookup n = some b := by
  rw [Finmap.lookup_eq_some_iff, h]
  exact Multiset.mem_add.mpr (.inl (Multiset.mem_singleton_self _))

theorem entries_insert_of_notMem (h : n ∉ s) (b : β) : (s.insert n b).entries = cell n b + s.entries :=
  (Finmap.entries_insert_of_notMem h).trans (Multiset.singleton_add _ _).symm

theorem insert_erase_self (s : Finmap fun _ : ν => β) (n : ν) (b : β) :
    (s.erase n).insert n b = s.insert n b := by
  refine Finmap.ext_lookup fun m => ?_
  by_cases hm : m = n
  · subst hm
    rw [Finmap.lookup_insert, Finmap.lookup_insert]
  · rw [Finmap.lookup_insert_of_ne _ hm, Finmap.lookup_insert_of_ne _ hm, Finmap.lookup_erase_ne hm]

theorem entries_erase (h : s.entries = cell n b + rest) : (s.erase n).entries = rest := by
  have hself : s.insert n b = s := by
    refine Finmap.ext_lookup fun m => ?_
    by_cases hm : m = n
    · subst hm
      rw [Finmap.lookup_insert, lookup_of_entries h]
    · rw [Finmap.lookup_insert_of_ne _ hm]
  have hadd := entries_insert_of_notMem (s := s.erase n) Finmap.notMem_erase_self b
  rw [insert_erase_self, hself, h] at hadd
  exact (add_left_cancel hadd).symm

theorem entries_insert (h : s.entries = cell n b + rest) (b' : β) :
    (s.insert n b').entries = cell n b' + rest := by
  rw [← insert_erase_self, entries_insert_of_notMem Finmap.notMem_erase_self, entries_erase h]

end Entries

/-- With the cells `P`, whatever else is in use, there is no bad access, and what it ends with and
owns then is as `Q` tells. Every other cell is left as it was. -/
def Ensures (P : Cells ν β) (r : Routine ν β α) (Q : α → Cells ν β → Prop) : Prop :=
  ∀ m rest, m.cells = P + rest → ∃ a m' R, r m = some (a, m') ∧ m'.cells = R + rest ∧ Q a R

namespace Ensures

variable {P F R : Cells ν β} {r : Routine ν β α} {f : α → Routine ν β γ} {Q Q' : α → Cells ν β → Prop}
  {Z : γ → Cells ν β → Prop}

theorem pure {a : α} (h : Q a P) : Ensures P (Pure.pure a) Q :=
  fun m _ hm => ⟨a, m, P, rfl, hm, h⟩

theorem mono (h : Ensures P r Q) (hQ : ∀ a R, Q a R → Q' a R) : Ensures P r Q' := by
  intro m rest hm
  obtain ⟨a, m', R, hrun, hcells, hq⟩ := h m rest hm
  exact ⟨a, m', R, hrun, hcells, hQ a R hq⟩

theorem bind (h : Ensures P r Q) (hf : ∀ a R, Q a R → Ensures R (f a) Z) : Ensures P (r >>= f) Z := by
  intro m rest hm
  obtain ⟨a, m', R, hrun, hcells, hq⟩ := h m rest hm
  obtain ⟨c, m'', R', hrun', hcells', hz⟩ := hf a R hq m' rest hcells
  refine ⟨c, m'', R', ?_, hcells', hz⟩
  change (r m).bind (fun p => f p.1 p.2) = _
  rw [hrun]
  exact hrun'

theorem discard (h : Ensures P r Q) : Ensures P (discard r) (fun _ R => ∃ a, Q a R) := by
  intro m rest hm
  obtain ⟨a, m', R, hrun, hcells, hq⟩ := h m rest hm
  refine ⟨(), m', R, ?_, hcells, a, hq⟩
  change (r m).bind (fun p => some ((), p.2)) = _
  rw [hrun, Option.bind_some]

/-- Cells that a routine has no need of stay as they are. -/
theorem frame (h : Ensures P r Q) (F : Cells ν β) :
    Ensures (P + F) r (fun a R => ∃ R', R = R' + F ∧ Q a R') := by
  intro m rest hm
  rw [add_assoc] at hm
  obtain ⟨a, m', R, hrun, hcells, hq⟩ := h m (F + rest) hm
  exact ⟨a, m', R + F, hrun, by rw [hcells, add_assoc], R, rfl, hq⟩

/-- A call: the cells it needs are split off and what it leaves is put back. -/
theorem call (h : Ensures R r Q) (hP : P = R + F) (hf : ∀ a R', Q a R' → Ensures (R' + F) (f a) Z) :
    Ensures P (r >>= f) Z := by
  subst hP
  refine (h.frame F).bind fun a R' hq => ?_
  obtain ⟨S, rfl, hq⟩ := hq
  exact hf a S hq

theorem size : Ensures P Memory.size (fun k R => Multiset.card P ≤ k ∧ R = P) := by
  intro m rest hm
  refine ⟨_, m, P, rfl, hm, ?_, rfl⟩
  rw [hm, Multiset.card_add]
  exact Nat.le_add_right _ _

variable [DecidableEq ν] {n : ν} {b : β}

theorem load (hP : P = cell n b + F) : Ensures P (Memory.load n) (fun a R => a = b ∧ R = P) := by
  subst hP
  intro m rest hm
  have hentries : m.blocks.entries = cell n b + (F + rest) := hm.trans (add_assoc _ _ _)
  refine ⟨b, m, cell n b + F, ?_, hm, rfl, rfl⟩
  rw [Memory.load, lookup_of_entries hentries, Option.map_some]

theorem store (hP : P = cell n b + F) (b' : β) :
    Ensures P (Memory.store n b') (fun _ R => R = cell n b' + F) := by
  subst hP
  intro m rest hm
  have hentries : m.blocks.entries = cell n b + (F + rest) := hm.trans (add_assoc _ _ _)
  refine ⟨(), { m with blocks := m.blocks.insert n b' }, cell n b' + F, ?_, ?_, rfl⟩
  · rw [Memory.store, lookup_of_entries hentries, Option.map_some]
  · exact (entries_insert hentries b').trans (add_assoc _ _ _).symm

theorem free (hP : P = cell n b + F) : Ensures P (Memory.free n) (fun _ R => R = F) := by
  subst hP
  intro m rest hm
  have hentries : m.blocks.entries = cell n b + (F + rest) := hm.trans (add_assoc _ _ _)
  refine ⟨(), { m with blocks := m.blocks.erase n }, F, ?_, entries_erase hentries, rfl⟩
  rw [Memory.free, lookup_of_entries hentries, Option.map_some]

theorem alloc (malloc : Allocator ν) (b : β) : Ensures P (Memory.alloc malloc b)
    (fun a R => a = none ∧ R = P ∧ Refuses malloc ∨ ∃ n, a = some n ∧ R = cell n b + P) := by
  intro m rest hm
  cases hanswer : malloc m.calls with
  | none =>
    refine ⟨none, { m with calls := m.calls + 1 }, P, ?_, hm, .inl ⟨rfl, rfl, _, hanswer⟩⟩
    rw [Memory.alloc, hanswer]
  | some answer =>
    have hfresh : answer.fresh m.blocks.keys ∉ m.blocks :=
      fun h => answer.fresh_notMem _ (Finmap.mem_keys.mpr h)
    refine ⟨some (answer.fresh m.blocks.keys), ⟨m.blocks.insert (answer.fresh m.blocks.keys) b, m.calls + 1⟩,
      cell (answer.fresh m.blocks.keys) b + P, ?_, ?_, .inr ⟨_, rfl, rfl⟩⟩
    · rw [Memory.alloc, hanswer]
    · exact (entries_insert_of_notMem hfresh b).trans (by rw [add_assoc, ← hm]; rfl)

end Ensures

end Memory
