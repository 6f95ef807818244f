import Mathlib.Data.Finmap
import Mathlib.Data.Finset.Basic
import Mathlib.Data.List.Nodup

/-! Singly linked lists in a store of nodes. A freed node can be neither read nor written nor freed
again, and a list segment is the sequence of its nodes with what they hold. -/

structure NodeStore (ν β : Type*) where
  cells : Finmap fun _ : ν => β × Option ν
  freed : Finset ν

namespace NodeStore

variable {ν β : Type*} [DecidableEq ν]

section Accesses

variable {s t : NodeStore ν β} {n m : ν} {next : Option ν}

def load (s : NodeStore ν β) (n : ν) : Option (β × Option ν) :=
  if n ∈ s.freed then none else s.cells.lookup n

def setNext (s : NodeStore ν β) (n : ν) (next : Option ν) : Option (NodeStore ν β) :=
  (s.load n).map fun c => { s with cells := s.cells.insert n (c.1, next) }

def free (s : NodeStore ν β) (n : ν) : Option (NodeStore ν β) :=
  (s.load n).map fun _ => { s with freed := insert n s.freed }

theorem setNext_of_load {b : β} {old : Option ν} (h : s.load n = some (b, old)) (next : Option ν) :
    ∃ t, s.setNext n next = some t ∧ t.freed = s.freed ∧ t.load n = some (b, next) ∧
      ∀ m, m ≠ n → t.load m = s.load m := by
  have hfree : n ∉ s.freed := by
    intro hn
    rw [load, if_pos hn] at h
    cases h
  refine ⟨{ s with cells := s.cells.insert n (b, next) }, by rw [setNext, h, Option.map_some], rfl, ?_,
    fun m hm => ?_⟩
  · rw [load, if_neg hfree, Finmap.lookup_insert]
  · simp only [load, Finmap.lookup_insert_of_ne _ hm]

theorem free_of_load {c : β × Option ν} (h : s.load n = some c) :
    ∃ t, s.free n = some t ∧ t.freed = insert n s.freed ∧ ∀ m, m ≠ n → t.load m = s.load m := by
  refine ⟨{ s with freed := insert n s.freed }, by rw [free, h, Option.map_some], rfl, fun m hm => ?_⟩
  simp only [load, Finset.mem_insert, hm, false_or]

end Accesses

section Segments

/-- The nodes from `ref` on, up to the reference `stop`. -/
def Segment (s : NodeStore ν β) : Option ν → List (ν × β) → Option ν → Prop
  | ref, [], stop => ref = stop
  | ref, x :: xs, stop => ref = some x.1 ∧ ∃ next, s.load x.1 = some (x.2, next) ∧ s.Segment next xs stop

namespace Segment

variable {s t : NodeStore ν β} {ref stop : Option ν} {xs ys : List (ν × β)}

theorem append_iff : s.Segment ref (xs ++ ys) stop ↔ ∃ mid, s.Segment ref xs mid ∧ s.Segment mid ys stop := by
  induction xs generalizing ref with
  | nil =>
    constructor
    · exact fun h => ⟨ref, rfl, h⟩
    · rintro ⟨mid, rfl, h⟩
      exact h
  | cons x xs ih =>
    constructor
    · rintro ⟨href, next, hload, hrest⟩
      obtain ⟨mid, hxs, hys⟩ := ih.mp hrest
      exact ⟨mid, ⟨href, next, hload, hxs⟩, hys⟩
    · rintro ⟨mid, ⟨href, next, hload, hxs⟩, hys⟩
      exact ⟨href, next, hload, ih.mpr ⟨mid, hxs, hys⟩⟩

/-- A segment depends on its own nodes only. -/
theorem frame (h : s.Segment ref xs stop) (hsame : ∀ x ∈ xs, t.load x.1 = s.load x.1) :
    t.Segment ref xs stop := by
  induction xs generalizing ref with
  | nil => exact h
  | cons x xs ih =>
    obtain ⟨href, next, hload, hrest⟩ := h
    rw [List.forall_mem_cons] at hsame
    exact ⟨href, next, hsame.1.trans hload, ih hrest hsame.2⟩

theorem unique (hx : s.Segment ref xs none) (hy : s.Segment ref ys none) : xs = ys := by
  induction xs generalizing ref ys with
  | nil =>
    cases ys with
    | nil => rfl
    | cons y ys =>
      obtain ⟨rfl, -⟩ := hy
      cases hx
  | cons x xs ih =>
    obtain ⟨rfl, next, hload, hrest⟩ := hx
    cases ys with
    | nil => cases hy
    | cons y ys =>
      obtain ⟨hsame, next', hload', hrest'⟩ := hy
      have hnode : x.1 = y.1 := Option.some.inj hsame
      rw [← hnode, hload] at hload'
      obtain ⟨hheld, rfl⟩ := Prod.mk.inj (Option.some.inj hload')
      rw [ih hrest hrest', Prod.ext hnode hheld]

/-- A chain that ends visits no node twice. -/
theorem nodup (h : s.Segment ref xs none) : (xs.map Prod.fst).Nodup := by
  induction xs generalizing ref with
  | nil => exact List.nodup_nil
  | cons x xs ih =>
    obtain ⟨rfl, next, hload, hrest⟩ := h
    rw [List.map_cons, List.nodup_cons]
    refine ⟨fun hmem => ?_, ih hrest⟩
    -- From the second visit on the chain would be as long as from the first one.
    obtain ⟨y, hy, hnode⟩ := List.mem_map.mp hmem
    obtain ⟨before, after, rfl⟩ := List.append_of_mem hy
    obtain ⟨mid, -, hagain⟩ := append_iff.mp hrest
    have hstart : mid = some x.1 := hagain.1.trans (congrArg some hnode)
    have hfirst : s.Segment (some x.1) (x :: (before ++ y :: after)) none := ⟨rfl, next, hload, hrest⟩
    have hsame := unique (hstart ▸ hagain) hfirst
    have hlength := congrArg List.length hsame
    simp only [List.length_cons, List.length_append] at hlength
    omega

theorem concat_iff {x : ν × β} : s.Segment ref (xs ++ [x]) stop ↔
    s.Segment ref xs (some x.1) ∧ s.load x.1 = some (x.2, stop) := by
  rw [append_iff]
  constructor
  · rintro ⟨mid, hxs, rfl, next, hload, rfl⟩
    exact ⟨hxs, hload⟩
  · rintro ⟨hxs, hload⟩
    exact ⟨some x.1, hxs, rfl, stop, hload, rfl⟩

end Segment

end Segments

section Unlinking

variable {s : NodeStore ν β} {head ref : Option ν} {xs rest : List (ν × β)}

/-- Store a reference in the node `prev`, or in the head where there is none. -/
def relink (s : NodeStore ν β) (head prev next : Option ν) : Option (Option ν × NodeStore ν β) :=
  match prev with
  | none => some (next, s)
  | some p => (s.setNext p next).map fun t => (head, t)

def lastNode (xs : List (ν × β)) : Option ν := xs.getLast?.map Prod.fst

omit [DecidableEq ν] in
theorem lastNode_concat (xs : List (ν × β)) (x : ν × β) : lastNode (xs ++ [x]) = some x.1 := by
  rw [lastNode, List.getLast?_concat, Option.map_some]

theorem Segment.relink (h : s.Segment head xs ref) (hnodup : (xs.map Prod.fst).Nodup) (next : Option ν) :
    ∃ head' t, s.relink head (lastNode xs) next = some (head', t) ∧ t.Segment head' xs next ∧
      t.freed = s.freed ∧ ∀ n, n ∉ xs.map Prod.fst → t.load n = s.load n := by
  induction xs using List.reverseRecOn with
  | nil => exact ⟨next, s, rfl, rfl, rfl, fun _ _ => rfl⟩
  | append_singleton xs x _ =>
    obtain ⟨hxs, hload⟩ := Segment.concat_iff.mp h
    obtain ⟨t, hset, hfreed, hnew, hother⟩ := setNext_of_load hload next
    rw [List.map_append, List.nodup_append] at hnodup
    have hbefore : ∀ y ∈ xs, t.load y.1 = s.load y.1 := by
      intro y hy
      exact hother y.1 (hnodup.2.2 y.1 (List.mem_map_of_mem hy) x.1 (by simp))
    refine ⟨head, t, ?_, Segment.concat_iff.mpr ⟨hxs.frame hbefore, hnew⟩, hfreed, fun n hn => ?_⟩
    · rw [lastNode_concat, NodeStore.relink, hset, Option.map_some]
    · refine hother n fun hnx => hn ?_
      simp [hnx]

theorem Segment.unlink {x : ν × β} {next : Option ν} (hxs : s.Segment head xs (some x.1))
    (hload : s.load x.1 = some (x.2, next)) (hrest : s.Segment next rest none)
    (hnodup : ((xs ++ x :: rest).map Prod.fst).Nodup) :
    ∃ head' t u, s.relink head (lastNode xs) next = some (head', t) ∧ t.free x.1 = some u ∧
      u.Segment head' xs next ∧ u.Segment next rest none ∧ u.freed = insert x.1 s.freed ∧
      ∀ n, n ∉ (xs ++ [x]).map Prod.fst → u.load n = s.load n := by
  rw [List.map_append, List.map_cons, List.nodup_append, List.nodup_cons] at hnodup
  obtain ⟨hfirst, ⟨hx, -⟩, hapart⟩ := hnodup
  have hnode : x.1 ∉ xs.map Prod.fst := fun hm => hapart x.1 hm x.1 (by simp) rfl
  obtain ⟨head', t, hrelink, ht, hfreed, hkept⟩ := hxs.relink hfirst next
  obtain ⟨u, hfree, hfreed', hkept'⟩ := free_of_load ((hkept x.1 hnode).trans hload)
  refine ⟨head', t, u, hrelink, hfree, ?_, ?_, by rw [hfreed', hfreed], fun n hn => ?_⟩
  · refine ht.frame fun y hy => hkept' y.1 fun hyx => ?_
    exact hnode (hyx ▸ List.mem_map_of_mem hy)
  · refine hrest.frame fun y hy => ?_
    have hy' := List.mem_map_of_mem (f := Prod.fst) hy
    rw [hkept' y.1 fun hyx => hx (hyx ▸ hy')]
    exact hkept y.1 fun hm => hapart y.1 hm y.1 (List.mem_cons_of_mem _ hy') rfl
  · rw [List.map_append, List.mem_append, not_or] at hn
    rw [hkept' n fun hnx => hn.2 (by simp [hnx]), hkept n hn.1]

end Unlinking

end NodeStore
