import Tcpkit.Chains
import Tcpkit.NodeStore

/-! The loops of `hashtable_sweep` and `hashtable_del` over the nodes of a bucket, with the pointers
they follow and store. They compute what the loops over lists compute. -/

namespace Tcpkit

open MachineInt NodeStore

/-- A bucket: its head, the nodes, and the counter of the table. -/
structure NodeChain (ν α : Type) where
  head : Option ν
  store : NodeStore ν (Entry α)
  size : Int

variable {ν α : Type} [DecidableEq ν]

/-- The loop of `hashtable_sweep`, none for an access to a freed node. A pass goes one node
further, so the length of the chain is enough. -/
def sweepLoop (expired : α → Bool) : Nat → Option ν → Option ν → NodeChain ν α → Int →
    Option (NodeChain ν α × Int)
  | _, _, none, c, removed => some (c, removed)
  | 0, _, some _, _, _ => none
  | fuel + 1, prev, some current, c, removed => do
    let (e, next) ← c.store.load current
    if expired e.value then
      let (head, store) ← c.store.relink c.head prev next
      let store ← store.free current
      sweepLoop expired fuel prev next ⟨head, store, int32 (c.size - 1)⟩ (int32 (removed + 1))
    else sweepLoop expired fuel (some current) next c removed

/-- The assignment that leads around `current`. Only at the head of the bucket may `prev` be NULL. -/
def NodeChain.bypass (c : NodeChain ν α) (prev : Option ν) (current : ν) (next : Option ν) :
    Option (Option ν × NodeStore ν (Entry α)) :=
  if c.head = some current then some (next, c.store)
  else (prev.bind fun p => c.store.setNext p next).map fun store => (c.head, store)

def delLoop (key : CString) : Nat → Option ν → Option ν → NodeChain ν α → Option (NodeChain ν α × Int)
  | _, _, none, c => some (c, 0)
  | 0, _, some _, _ => none
  | fuel + 1, prev, some current, c => do
    let (e, next) ← c.store.load current
    if sameKey key e then
      let (head, store) ← c.bypass prev current next
      let store ← store.free current
      return (⟨head, store, int32 (c.size - 1)⟩, 1)
    else delLoop key fuel (some current) next c

def NodeChain.Holds (c : NodeChain ν α) (xs : List (ν × Entry α)) : Prop :=
  c.store.Segment c.head xs none

section Passes

variable {c : NodeChain ν α} {x : ν × Entry α} {xs rest : List (ν × Entry α)} {next prev : Option ν}
  {fuel : Nat} {removed : Int}

theorem sweepLoop_kept {expired : α → Bool} (hload : c.store.load x.1 = some (x.2, next))
    (h : expired x.2.value = false) : sweepLoop expired (fuel + 1) prev (some x.1) c removed =
      sweepLoop expired fuel (some x.1) next c removed := by
  simp [sweepLoop, hload, h]

theorem sweepLoop_removed {expired : α → Bool} (hload : c.store.load x.1 = some (x.2, next))
    (h : expired x.2.value = true) {head : Option ν} {t u : NodeStore ν (Entry α)}
    (hrelink : c.store.relink c.head prev next = some (head, t)) (hfree : t.free x.1 = some u) :
    sweepLoop expired (fuel + 1) prev (some x.1) c removed =
      sweepLoop expired fuel prev next ⟨head, u, int32 (c.size - 1)⟩ (int32 (removed + 1)) := by
  simp [sweepLoop, hload, h, hrelink, hfree]

theorem delLoop_kept {key : CString} (hload : c.store.load x.1 = some (x.2, next)) (h : x.2.key ≠ key) :
    delLoop key (fuel + 1) prev (some x.1) c = delLoop key fuel (some x.1) next c := by
  simp [delLoop, hload, h]

theorem delLoop_removed {key : CString} (hload : c.store.load x.1 = some (x.2, next)) (h : x.2.key = key)
    {head : Option ν} {t u : NodeStore ν (Entry α)} (hbypass : c.bypass prev x.1 next = some (head, t))
    (hfree : t.free x.1 = some u) :
    delLoop key (fuel + 1) prev (some x.1) c = some (⟨head, u, int32 (c.size - 1)⟩, 1) := by
  simp [delLoop, hload, h, hbypass, hfree]

/-- A node is the head exactly when nothing stands before it, so both loops store in the same place. -/
theorem bypass_eq_relink (hxs : c.store.Segment c.head xs (some x.1)) (hx : x.1 ∉ xs.map Prod.fst) :
    c.bypass (lastNode xs) x.1 next = c.store.relink c.head (lastNode xs) next := by
  cases xs with
  | nil =>
    have hhead : c.head = some x.1 := hxs
    rw [NodeChain.bypass, if_pos hhead]
    rfl
  | cons y ys =>
    have hhead : c.head = some y.1 := hxs.1
    have hne : c.head ≠ some x.1 := by
      rw [hhead]
      intro he
      exact hx (by simp [Option.some.inj he])
    obtain ⟨p, hp⟩ : ∃ p, lastNode (y :: ys) = some p := by
      simp [lastNode, List.getLast?_cons]
    rw [NodeChain.bypass, if_neg hne, hp]
    rfl

end Passes

section Chain

variable (expired : α → Bool) (key : CString)

theorem sweepChain_fst (chain : List (Entry α)) (size removed : Int) :
    (sweepChain expired chain size removed).1 = chain.filter fun e => !expired e.value := by
  induction chain generalizing size removed with
  | nil => rfl
  | cons e rest ih =>
    by_cases h : expired e.value = true
    · simp [sweepChain, h, ih]
    · simp [sweepChain, h, ih]

/-- The nodes before `current` are those kept so far, and the last of them is `prev`. -/
theorem sweepLoop_spec {kept rest : List (ν × Entry α)} {c : NodeChain ν α} {current : Option ν}
    {fuel : Nat} (removed : Int) (hkept : c.store.Segment c.head kept current)
    (hrest : c.store.Segment current rest none) (hnodup : ((kept ++ rest).map Prod.fst).Nodup)
    (hfuel : rest.length ≤ fuel) :
    ∃ c' removed', sweepLoop expired fuel (lastNode kept) current c removed = some (c', removed') ∧
      c'.Holds (kept ++ rest.filter fun x => !expired x.2.value) ∧
      c'.store.freed = c.store.freed ∪ ((rest.filter fun x => expired x.2.value).map Prod.fst).toFinset ∧
      (∀ n, n ∉ (kept ++ rest).map Prod.fst → c'.store.load n = c.store.load n) ∧
      (sweepChain expired (rest.map Prod.snd) c.size removed).2 = (c'.size, removed') := by
  induction rest generalizing kept c current fuel removed with
  | nil =>
    have hcurrent : current = none := hrest
    subst hcurrent
    exact ⟨c, removed, by cases fuel <;> rfl, by simpa [NodeChain.Holds] using hkept, by simp,
      fun _ _ => rfl, rfl⟩
  | cons x rest ih =>
    obtain ⟨rfl, next, hload, hbehind⟩ := hrest
    obtain ⟨fuel, rfl⟩ : ∃ n, fuel = n + 1 := ⟨fuel - 1, by simp at hfuel; omega⟩
    have hfuel' : rest.length ≤ fuel := by simpa using hfuel
    by_cases h : expired x.2.value = true
    · obtain ⟨head, t, u, hrelink, hfree, hkept', hbehind', hfreed, hother⟩ :=
        hkept.unlink hload hbehind hnodup
      have hfewer : ((kept ++ rest).map Prod.fst).Nodup :=
        hnodup.sublist (((List.sublist_cons_self x rest).append_left kept).map Prod.fst)
      obtain ⟨c', removed', hloop, hholds, hfreed', hother', hcount⟩ := ih
        (c := ⟨head, u, int32 (c.size - 1)⟩) (int32 (removed + 1)) hkept' hbehind' hfewer hfuel'
      refine ⟨c', removed', ?_, ?_, ?_, fun n hn => ?_, ?_⟩
      · rw [sweepLoop_removed hload h hrelink hfree, hloop]
      · rwa [List.filter_cons_of_neg (by simp [h])]
      · rw [hfreed', hfreed, List.filter_cons_of_pos (by simpa using h)]
        simp [Finset.insert_union, Finset.union_insert]
      · have hn' : n ∉ (kept ++ rest).map Prod.fst := fun hm => hn (by
          simp only [List.map_append, List.map_cons, List.mem_append, List.mem_cons] at hm ⊢
          tauto)
        rw [hother' n hn']
        refine hother n fun hm => hn ?_
        simp only [List.map_append, List.map_cons, List.mem_append, List.mem_cons, List.map_nil,
          List.not_mem_nil, or_false] at hm ⊢
        tauto
      · rw [List.map_cons, sweepChain, if_pos h, hcount]
    · have hkeep : expired x.2.value = false := Bool.eq_false_iff.mpr h
      have hlonger : c.store.Segment c.head (kept ++ [x]) next := Segment.concat_iff.mpr ⟨hkept, hload⟩
      have hsplit : kept ++ x :: rest = kept ++ [x] ++ rest := by simp
      rw [hsplit] at hnodup
      obtain ⟨c', removed', hloop, hholds, hfreed, hother, hcount⟩ :=
        ih removed hlonger hbehind hnodup hfuel'
      rw [lastNode_concat] at hloop
      refine ⟨c', removed', ?_, ?_, ?_, fun n hn => hother n (hsplit ▸ hn), ?_⟩
      · rw [sweepLoop_kept hload hkeep, hloop]
      · rw [List.filter_cons_of_pos (by simp [hkeep])]
        simpa using hholds
      · rw [hfreed, List.filter_cons_of_neg (by simp [hkeep])]
      · rw [List.map_cons, sweepChain, if_neg h, hcount]

theorem delLoop_none {prev current : Option ν} {c : NodeChain ν α} {rest : List (ν × Entry α)} {fuel : Nat}
    (hrest : c.store.Segment current rest none) (hfuel : rest.length ≤ fuel)
    (hno : ∀ x ∈ rest, x.2.key ≠ key) : delLoop key fuel prev current c = some (c, 0) := by
  induction rest generalizing prev current fuel with
  | nil =>
    have hcurrent : current = none := hrest
    subst hcurrent
    cases fuel <;> rfl
  | cons x rest ih =>
    obtain ⟨rfl, next, hload, hbehind⟩ := hrest
    obtain ⟨fuel, rfl⟩ : ∃ n, fuel = n + 1 := ⟨fuel - 1, by simp at hfuel; omega⟩
    rw [List.forall_mem_cons] at hno
    rw [delLoop_kept hload hno.1, ih hbehind (by simpa using hfuel) hno.2]

theorem delLoop_some {c : NodeChain ν α} {kept before after : List (ν × Entry α)} {x : ν × Entry α}
    {current : Option ν} {fuel : Nat} (hkept : c.store.Segment c.head kept current)
    (hrest : c.store.Segment current (before ++ x :: after) none)
    (hnodup : ((kept ++ (before ++ x :: after)).map Prod.fst).Nodup)
    (hfuel : (before ++ x :: after).length ≤ fuel) (hno : ∀ y ∈ before, y.2.key ≠ key)
    (hkey : x.2.key = key) :
    ∃ c', delLoop key fuel (lastNode kept) current c = some (c', 1) ∧
      c'.Holds (kept ++ (before ++ after)) ∧ c'.store.freed = insert x.1 c.store.freed ∧
      (∀ n, n ∉ (kept ++ (before ++ x :: after)).map Prod.fst → c'.store.load n = c.store.load n) ∧
      c'.size = int32 (c.size - 1) := by
  induction before generalizing kept current fuel with
  | nil =>
    obtain ⟨rfl, next, hload, hbehind⟩ := hrest
    obtain ⟨fuel, rfl⟩ : ∃ n, fuel = n + 1 := ⟨fuel - 1, by simp at hfuel; omega⟩
    obtain ⟨head, t, u, hrelink, hfree, hkept', hbehind', hfreed, hother⟩ :=
      hkept.unlink hload hbehind hnodup
    have hx : x.1 ∉ kept.map Prod.fst := by
      rw [List.map_append, List.nodup_append] at hnodup
      exact fun hm => hnodup.2.2 x.1 hm x.1 (by simp) rfl
    refine ⟨⟨head, u, int32 (c.size - 1)⟩,
      delLoop_removed hload hkey ((bypass_eq_relink hkept hx).trans hrelink) hfree,
      Segment.append_iff.mpr ⟨next, hkept', hbehind'⟩, hfreed, fun n hn => hother n fun hm => hn ?_, rfl⟩
    simp only [List.map_append, List.map_cons, List.mem_append, List.mem_cons, List.map_nil,
      List.not_mem_nil, or_false, List.nil_append] at hm ⊢
    tauto
  | cons y before ih =>
    obtain ⟨rfl, next, hload, hbehind⟩ := hrest
    obtain ⟨fuel, rfl⟩ : ∃ n, fuel = n + 1 := ⟨fuel - 1, by simp at hfuel; omega⟩
    rw [List.forall_mem_cons] at hno
    have hlonger : c.store.Segment c.head (kept ++ [y]) next := Segment.concat_iff.mpr ⟨hkept, hload⟩
    have hsplit : kept ++ (y :: before ++ x :: after) = kept ++ [y] ++ (before ++ x :: after) := by simp
    rw [hsplit] at hnodup
    obtain ⟨c', hloop, hholds, hfreed, hother, hsize⟩ :=
      ih hlonger hbehind hnodup (by simpa using hfuel) hno.2
    rw [lastNode_concat] at hloop
    refine ⟨c', ?_, by simpa using hholds, hfreed, fun n hn => hother n (hsplit ▸ hn), hsize⟩
    rw [delLoop_kept hload hno.1, hloop]

theorem delChain_none {chain : List (Entry α)} (hno : ∀ e ∈ chain, e.key ≠ key) :
    delChain key chain = none := by
  induction chain with
  | nil => rfl
  | cons e chain ih =>
    rw [List.forall_mem_cons] at hno
    rw [delChain, if_neg (by simpa using hno.1), ih hno.2, Option.map_none]

theorem delChain_some {before after : List (Entry α)} {e : Entry α} (hno : ∀ d ∈ before, d.key ≠ key)
    (hkey : e.key = key) : delChain key (before ++ e :: after) = some (before ++ after) := by
  induction before with
  | nil => rw [List.nil_append, delChain, if_pos (by simpa using hkey), List.nil_append]
  | cons d before ih =>
    rw [List.forall_mem_cons] at hno
    rw [List.cons_append, delChain, if_neg (by simpa using hno.1), ih hno.2]
    rfl

end Chain

/-- On a chain of any length both loops end without an access to a freed node. The sweep frees
exactly the expired nodes and links the others in their order, the deletion unlinks and frees
exactly the first node with the key, and both leave the entries that the list operations leave. -/
theorem loops_unlink_exactly (c : NodeChain ν α) (xs : List (ν × Entry α)) (h : c.Holds xs) :
    (xs.map Prod.fst).Nodup ∧
    (∀ expired : α → Bool, ∀ fuel, xs.length ≤ fuel →
      ∃ c' removed, sweepLoop expired fuel none c.head c 0 = some (c', removed) ∧
        c'.Holds (xs.filter fun x => !expired x.2.value) ∧
        c'.store.freed = c.store.freed ∪ ((xs.filter fun x => expired x.2.value).map Prod.fst).toFinset ∧
        (∀ n, n ∉ xs.map Prod.fst → c'.store.load n = c.store.load n) ∧
        sweepChain expired (xs.map Prod.snd) c.size 0 =
          ((xs.filter fun x => !expired x.2.value).map Prod.snd, c'.size, removed)) ∧
    (∀ key fuel, xs.length ≤ fuel → (∀ x ∈ xs, x.2.key ≠ key) →
      delLoop key fuel none c.head c = some (c, 0) ∧ delChain key (xs.map Prod.snd) = none) ∧
    ∀ key fuel before x after, xs = before ++ x :: after → xs.length ≤ fuel →
      (∀ y ∈ before, y.2.key ≠ key) → x.2.key = key →
      ∃ c', delLoop key fuel none c.head c = some (c', 1) ∧ c'.Holds (before ++ after) ∧
        c'.store.freed = insert x.1 c.store.freed ∧
        (∀ n, n ∉ xs.map Prod.fst → c'.store.load n = c.store.load n) ∧
        c'.size = int32 (c.size - 1) ∧
        delChain key (xs.map Prod.snd) = some ((before ++ after).map Prod.snd) := by
  have hnodup := h.nodup
  have hstart : c.store.Segment c.head [] c.head := rfl
  refine ⟨hnodup, fun expired fuel hfuel => ?_, fun key fuel hfuel hno => ⟨?_, ?_⟩, ?_⟩
  · obtain ⟨c', removed, hloop, hholds, hfreed, hother, hcount⟩ :=
      sweepLoop_spec expired 0 hstart h hnodup hfuel
    refine ⟨c', removed, hloop, hholds, hfreed, hother, Prod.ext ?_ hcount⟩
    rw [sweepChain_fst, List.filter_map]
    rfl
  · exact delLoop_none key h hfuel hno
  · refine delChain_none key fun e he => ?_
    obtain ⟨x, hx, rfl⟩ := List.mem_map.mp he
    exact hno x hx
  · rintro key fuel before x after rfl hfuel hno hkey
    obtain ⟨c', hloop, hholds, hfreed, hother, hsize⟩ :=
      delLoop_some key hstart h hnodup hfuel hno hkey
    refine ⟨c', hloop, hholds, hfreed, hother, hsize, ?_⟩
    rw [List.map_append, List.map_cons, List.map_append]
    refine delChain_some key (fun e he => ?_) hkey
    obtain ⟨y, hy, rfl⟩ := List.mem_map.mp he
    exact hno y hy

def threeCells : List (Sigma fun _ : Nat => Entry Nat × Option Nat) :=
  [⟨7, ⟨CString.literal "a", 1⟩, some 3⟩, ⟨3, ⟨CString.literal "b", 2⟩, some 5⟩,
    ⟨5, ⟨CString.literal "c", 3⟩, none⟩]

def threeNodes : NodeChain Nat Nat := ⟨some 7, ⟨threeCells.toFinmap, ∅⟩, 3⟩

theorem threeNodes_holds : threeNodes.Holds
    [(7, ⟨CString.literal "a", 1⟩), (3, ⟨CString.literal "b", 2⟩), (5, ⟨CString.literal "c", 3⟩)] := by
  refine ⟨rfl, some 3, ?_, rfl, some 5, ?_, rfl, none, ?_, rfl⟩ <;> decide +kernel

theorem loops_unlink_exactly_three :
    ∃ c removed, sweepLoop (fun v => decide (v ≠ 2)) 3 none threeNodes.head threeNodes 0 = some (c, removed) ∧
      c.Holds [(3, ⟨CString.literal "b", 2⟩)] ∧ c.store.freed = {7, 5} := by
  obtain ⟨c, removed, hloop, hholds, hfreed, -⟩ :=
    (loops_unlink_exactly threeNodes _ threeNodes_holds).2.1 (fun v => decide (v ≠ 2)) 3 (by decide)
  refine ⟨c, removed, hloop, hholds, hfreed.trans ?_⟩
  decide +kernel

end Tcpkit
