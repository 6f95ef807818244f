import Mathlib.Data.Finset.Card
import Tcpkit.NodeStore

/-! A store whose nodes in use are split into chains that share no node. An address that was freed
may be handed out again. -/

namespace NodeStore

variable {ν β ι : Type*} [DecidableEq ν]

/-- An allocator that succeeds: an address that is not in use. -/
structure Malloc (ν : Type*) where
  fresh : Finset ν → ν
  fresh_notMem : ∀ live, fresh live ∉ live

def live (s : NodeStore ν β) : Finset ν := s.cells.keys \ s.freed

def alloc (s : NodeStore ν β) (n : ν) (cell : β × Option ν) : NodeStore ν β :=
  ⟨s.cells.insert n cell, s.freed.erase n⟩

section Live

variable {s t : NodeStore ν β} {n : ν}

theorem mem_live_iff : n ∈ s.live ↔ ∃ c, s.load n = some c := by
  rw [live, Finset.mem_sdiff, Finmap.mem_keys, load]
  by_cases hn : n ∈ s.freed
  · simp [hn]
  · simp only [hn, not_false_eq_true, and_true, if_false]
    exact Finmap.mem_iff

theorem mem_live_congr (h : t.load n = s.load n) : n ∈ t.live ↔ n ∈ s.live := by
  rw [mem_live_iff, mem_live_iff, h]

theorem notMem_live_of_freed (h : n ∈ s.freed) : n ∉ s.live := fun hn => (Finset.mem_sdiff.mp hn).2 h

theorem load_alloc_self (s : NodeStore ν β) (n : ν) (cell : β × Option ν) :
    (s.alloc n cell).load n = some cell := by
  simp [load, alloc]

theorem load_alloc_of_ne {m : ν} (hm : m ≠ n) (cell : β × Option ν) : (s.alloc n cell).load m = s.load m := by
  simp [load, alloc, hm]

theorem Segment.mem_live {ref stop : Option ν} {xs : List (ν × β)} (h : s.Segment ref xs stop) {x : ν × β}
    (hx : x ∈ xs) : x.1 ∈ s.live := by
  obtain ⟨before, after, rfl⟩ := List.append_of_mem hx
  obtain ⟨mid, -, -, next, hload, -⟩ := Segment.append_iff.mp h
  exact mem_live_iff.mpr ⟨_, hload⟩

/-- So many steps lead over any chain that ends. -/
theorem Segment.length_le {ref : Option ν} {xs : List (ν × β)} (h : s.Segment ref xs none) :
    xs.length ≤ s.live.card := by
  have hcard := List.toFinset_card_of_nodup h.nodup
  rw [List.length_map] at hcard
  rw [← hcard]
  refine Finset.card_le_card fun n hn => ?_
  obtain ⟨x, hx, rfl⟩ := List.mem_map.mp (List.mem_toFinset.mp hn)
  exact h.mem_live hx

end Live

/-- From each head one chain, no node in two of them, and no other node in use. -/
structure Partitioned (s : NodeStore ν β) (heads : ι → Option ν) (chains : ι → List (ν × β)) : Prop where
  segment : ∀ i, s.Segment (heads i) (chains i) none
  apart : ∀ i j, i ≠ j → ∀ x ∈ chains i, x.1 ∉ (chains j).map Prod.fst
  covered : ∀ n ∈ s.live, ∃ i, n ∈ (chains i).map Prod.fst

namespace Partitioned

variable {s t : NodeStore ν β} {heads : ι → Option ν} {chains : ι → List (ν × β)} {i : ι}

theorem empty : (⟨∅, ∅⟩ : NodeStore ν β).Partitioned (fun _ : ι => none) (fun _ => []) where
  segment _ := rfl
  apart _ _ _ x hx := absurd hx List.not_mem_nil
  covered n hn := by
    obtain ⟨c, hload⟩ := mem_live_iff.mp hn
    simp [load] at hload

theorem mem_live (h : s.Partitioned heads chains) {n : ν} (hn : n ∈ (chains i).map Prod.fst) :
    n ∈ s.live := by
  obtain ⟨x, hx, rfl⟩ := List.mem_map.mp hn
  exact (h.segment i).mem_live hx

/-- One chain may change as long as it takes up no node of another. -/
theorem replace [DecidableEq ι] (h : s.Partitioned heads chains) (i : ι) {head : Option ν} {xs : List (ν × β)}
    (hseg : t.Segment head xs none)
    (hother : ∀ n, n ∉ (chains i).map Prod.fst → n ∉ xs.map Prod.fst → t.load n = s.load n)
    (hnew : ∀ n ∈ xs.map Prod.fst, n ∈ (chains i).map Prod.fst ∨ n ∉ s.live)
    (hgone : ∀ n ∈ (chains i).map Prod.fst, n ∉ xs.map Prod.fst → n ∉ t.live) :
    t.Partitioned (Function.update heads i head) (Function.update chains i xs) := by
  have hseparate : ∀ j, j ≠ i → ∀ n ∈ (chains j).map Prod.fst,
      n ∉ (chains i).map Prod.fst ∧ n ∉ xs.map Prod.fst := by
    intro j hj n hn
    obtain ⟨y, hy, rfl⟩ := List.mem_map.mp hn
    have hold := h.apart j i hj y hy
    refine ⟨hold, fun hx => ?_⟩
    rcases hnew y.1 hx with hmem | hdead
    · exact hold hmem
    · exact hdead (h.mem_live hn)
  constructor
  case segment =>
    intro j
    by_cases hj : j = i
    · subst hj
      rwa [Function.update_self, Function.update_self]
    · rw [Function.update_of_ne hj, Function.update_of_ne hj]
      refine (h.segment j).frame fun y hy => ?_
      obtain ⟨hold, hx⟩ := hseparate j hj y.1 (List.mem_map_of_mem hy)
      exact hother y.1 hold hx
  case apart =>
    intro j k hjk x hx hmem
    by_cases hj : j = i
    · subst hj
      rw [Function.update_self] at hx
      rw [Function.update_of_ne (Ne.symm hjk)] at hmem
      exact (hseparate k (Ne.symm hjk) x.1 hmem).2 (List.mem_map_of_mem hx)
    · rw [Function.update_of_ne hj] at hx
      by_cases hk : k = i
      · subst hk
        rw [Function.update_self] at hmem
        exact (hseparate j hj x.1 (List.mem_map_of_mem hx)).2 hmem
      · rw [Function.update_of_ne hk] at hmem
        exact h.apart j k hjk x hx hmem
  case covered =>
    intro n hn
    by_cases hx : n ∈ xs.map Prod.fst
    · exact ⟨i, by rwa [Function.update_self]⟩
    · have hold : n ∉ (chains i).map Prod.fst := fun hmem => hgone n hmem hx hn
      obtain ⟨j, hj⟩ := h.covered n ((mem_live_congr (hother n hold hx)).mp hn)
      have hne : j ≠ i := by
        rintro rfl
        exact hold hj
      exact ⟨j, by rwa [Function.update_of_ne hne]⟩

/-- A fresh node in front of one chain. -/
theorem push [DecidableEq ι] (h : s.Partitioned heads chains) (i : ι) {n : ν} (hn : n ∉ s.live) (b : β) :
    (s.alloc n (b, heads i)).Partitioned (Function.update heads i (some n))
      (Function.update chains i ((n, b) :: chains i)) := by
  have hne : ∀ x ∈ chains i, x.1 ≠ n := by
    rintro x hx rfl
    exact hn ((h.segment i).mem_live hx)
  refine h.replace i ⟨rfl, heads i, load_alloc_self s n _, ?_⟩ (fun m _ hm => ?_) (fun m hm => ?_)
    fun m hm hno => ?_
  · exact (h.segment i).frame fun x hx => load_alloc_of_ne (hne x hx) _
  · rw [List.map_cons, List.mem_cons, not_or] at hm
    exact load_alloc_of_ne hm.1 _
  · rw [List.map_cons, List.mem_cons] at hm
    rcases hm with rfl | hm
    · exact Or.inr hn
    · exact Or.inl hm
  · exact absurd (List.mem_cons_of_mem _ hm) hno

/-- Nodes outside the chains do not matter. -/
theorem congr (h : s.Partitioned heads chains) (hsame : ∀ n ∈ s.live, t.load n = s.load n)
    (hlive : ∀ n, n ∉ s.live → n ∉ t.live) : t.Partitioned heads chains where
  segment i := (h.segment i).frame fun x hx => hsame x.1 ((h.segment i).mem_live hx)
  apart := h.apart
  covered n hn := h.covered n (by_contra fun hno => hlive n hno hn)

theorem live_eq_empty (h : s.Partitioned heads fun _ : ι => ([] : List (ν × β))) : s.live = ∅ := by
  refine Finset.eq_empty_of_forall_notMem fun n hn => ?_
  obtain ⟨i, hi⟩ := h.covered n hn
  cases hi

theorem card_live (h : s.Partitioned heads chains) (is : List ι) (hnodup : is.Nodup) (hall : ∀ i, i ∈ is) :
    s.live.card = (is.flatMap chains).length := by
  have hdistinct : ((is.flatMap chains).map Prod.fst).Nodup := by
    rw [List.map_flatMap, List.nodup_flatMap]
    refine ⟨fun i _ => (h.segment i).nodup, hnodup.imp fun {i j} hij => ?_⟩
    intro n hn hn'
    obtain ⟨x, hx, rfl⟩ := List.mem_map.mp hn
    exact h.apart i j hij x hx hn'
  rw [← List.length_map Prod.fst, ← List.toFinset_card_of_nodup hdistinct]
  congr 1
  ext n
  rw [List.mem_toFinset, List.map_flatMap, List.mem_flatMap]
  constructor
  · intro hn
    obtain ⟨i, hi⟩ := h.covered n hn
    exact ⟨i, hall i, hi⟩
  · rintro ⟨i, -, hi⟩
    exact h.mem_live hi

end Partitioned

end NodeStore
