import Mathlib.Data.List.Perm.Basic
import Mathlib.Data.List.Nodup

/-! Bookkeeping of blocks that are handed out and given back. A block is in one
of three places: given back, held by its owner, or lost, held by nobody. -/

/-- The blocks handed out so far and those given back, each in order. -/
structure Ledger (β : Type*) where
  taken : List β
  freed : List β

namespace Ledger

open scoped List

variable {β : Type*} {l : Ledger β} {held held' lost bs : List β} {b : β}

def empty : Ledger β := ⟨[], []⟩

def take (l : Ledger β) (b : β) : Ledger β := { l with taken := l.taken ++ [b] }

def free (l : Ledger β) (bs : List β) : Ledger β := { l with freed := l.freed ++ bs }

/-- No block is taken twice, and each one taken is in exactly one place. -/
structure Accounts (l : Ledger β) (held lost : List β) : Prop where
  nodup : l.taken.Nodup
  perm : l.taken.Perm (l.freed ++ (held ++ lost))

/-- Each block taken is held or was given back, and that once. -/
def Settled [DecidableEq β] (l : Ledger β) (held : List β) : Prop :=
  ∀ b ∈ l.taken, l.freed.count b + held.count b = 1

namespace Accounts

theorem empty : (Ledger.empty : Ledger β).Accounts [] [] := ⟨List.nodup_nil, List.Perm.nil⟩

theorem congr (h : l.Accounts held lost) (hp : held.Perm held') : l.Accounts held' lost :=
  ⟨h.nodup, h.perm.trans ((hp.append_right lost).append_left l.freed)⟩

theorem take (h : l.Accounts held lost) (hb : b ∉ l.taken) :
    (l.take b).Accounts (b :: held) lost := by
  refine ⟨?_, ?_⟩
  · rw [Ledger.take, List.nodup_append]
    refine ⟨h.nodup, List.nodup_singleton b, fun x hx y hy => ?_⟩
    rw [List.mem_singleton] at hy
    rintro rfl
    exact hb (hy ▸ hx)
  · calc l.taken ++ [b]
      _ ~ b :: l.taken := List.perm_append_singleton b l.taken
      _ ~ b :: (l.freed ++ (held ++ lost)) := h.perm.cons b
      _ ~ l.freed ++ (b :: held ++ lost) := List.perm_middle.symm

theorem free (h : l.Accounts held lost) (hp : held.Perm (bs ++ held')) :
    (l.free bs).Accounts held' lost := by
  refine ⟨h.nodup, (h.congr hp).perm.trans ?_⟩
  simp only [Ledger.free, List.append_assoc]
  exact List.Perm.refl _

theorem lose (h : l.Accounts held lost) (hp : held.Perm (bs ++ held')) :
    l.Accounts held' (bs ++ lost) := by
  refine ⟨h.nodup, (h.congr hp).perm.trans (List.Perm.append_left _ ?_)⟩
  calc bs ++ held' ++ lost
    _ ~ held' ++ bs ++ lost := List.perm_append_comm.append_right lost
    _ = held' ++ (bs ++ lost) := List.append_assoc ..

theorem store (bs : List β) (h : l.Accounts (bs ++ held) lost) {ok : Bool}
    (hkept : ok = true → held'.Perm (bs ++ held)) (hrefused : ok = false → held' = held) :
    l.Accounts held' (if ok then lost else bs ++ lost) := by
  cases ok with
  | true => exact h.congr (hkept rfl).symm
  | false =>
    rw [hrefused rfl]
    exact h.lose (List.Perm.refl _)

variable [DecidableEq β]

theorem count_eq_one (h : l.Accounts held lost) (hb : b ∈ l.taken) :
    l.freed.count b + (held.count b + lost.count b) = 1 := by
  rw [← List.count_append, ← List.count_append, ← h.perm.count_eq]
  exact List.count_eq_one_of_mem h.nodup hb

theorem settled_iff (h : l.Accounts held lost) : l.Settled held ↔ lost = [] := by
  constructor
  · intro hs
    by_contra hne
    obtain ⟨b, hb⟩ := List.exists_mem_of_ne_nil lost hne
    have hmem : b ∈ l.taken := h.perm.mem_iff.mpr (by simp [hb])
    have hpos := List.count_pos_iff.mpr hb
    have hone := h.count_eq_one hmem
    have hsettled := hs b hmem
    omega
  · rintro rfl b hb
    simpa using h.count_eq_one hb

theorem notMem_freed (h : l.Accounts held lost) (hb : b ∈ held) : b ∉ l.freed := by
  intro hf
  have hmem : b ∈ l.taken := h.perm.mem_iff.mpr (by simp [hb])
  have hone := h.count_eq_one hmem
  have hheld := List.count_pos_iff.mpr hb
  have hfreed := List.count_pos_iff.mpr hf
  omega

end Accounts

end Ledger
