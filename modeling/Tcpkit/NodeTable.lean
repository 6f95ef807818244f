import Tcpkit.ChainLoops
import Tcpkit.NodeChains
import Tcpkit.Ownership

/-! The hash table of `hashtable.c` with its nodes: heads of buckets, pointers that are followed and
stored, nodes taken from `malloc` and given back. Every operation stays within the nodes in use and
computes what the table of lists computes. -/

namespace Tcpkit

open MachineInt NodeStore

structure NodeTable (ν α : Type) where
  nbucket : Nat
  pos : 0 < nbucket
  size : Int
  buckets : Fin nbucket → Option ν
  store : NodeStore ν (Entry α)

variable {ν α : Type} [DecidableEq ν]

/-- The search of `hashtable_get` and `hashtable_add`, none for an access to a node not in use. -/
def getLoop (key : CString) (store : NodeStore ν (Entry α)) : Nat → Option ν → Option (Option α)
  | _, none => some none
  | 0, some _ => none
  | fuel + 1, some current => do
    let (e, next) ← store.load current
    if sameKey key e then return some e.value else getLoop key store fuel next

/-- `hashtable_sweep` over the buckets `i` to come. -/
def sweepHeads (expired : α → Bool) {n : Nat} : List (Fin n) → (Fin n → Option ν) →
    NodeStore ν (Entry α) → Int → Int → Option ((Fin n → Option ν) × NodeStore ν (Entry α) × Int × Int)
  | [], buckets, store, size, removed => some (buckets, store, size, removed)
  | i :: is, buckets, store, size, removed => do
    let (c, removed) ← sweepLoop expired store.live.card none (buckets i) ⟨buckets i, store, size⟩ removed
    sweepHeads expired is (Function.update buckets i c.head) c.store c.size removed

/-- `values[*cnt] = e->value` behind the growth of the array, false where the walk returns. -/
def Values.push (allocOk : Int → Bool) (v : Values α) (value : α) : Option (Values α × Bool) :=
  if v.block = none then
    if allocOk v.cnt then ({ v with cap := 1, block := some 1 }.store value).map (·, true)
    else some (v, false)
  else if v.cnt = v.cap then
    let cap := int32 (v.cap * 2)
    if reallocOk allocOk v.cnt cap then
      ({ v with cap := cap, block := some (blockSlots cap) }.store value).map (·, true)
    else some ({ v with cap := cap }, false)
  else (v.store value).map (·, true)

def valuesBucket (allocOk : Int → Bool) (store : NodeStore ν (Entry α)) :
    Nat → Option ν → Values α → Option (Values α × Bool)
  | _, none, v => some (v, true)
  | 0, some _, _ => none
  | fuel + 1, some current, v => do
    let (e, next) ← store.load current
    let (v, more) ← v.push allocOk e.value
    if more then valuesBucket allocOk store fuel next v else return (v, false)

def valuesHeads (allocOk : Int → Bool) (store : NodeStore ν (Entry α)) :
    List (Option ν) → Values α → Option (Values α)
  | [], v => some v
  | head :: heads, v => do
    let (v, more) ← valuesBucket allocOk store store.live.card head v
    if more then valuesHeads allocOk store heads v else return v

/-- The loop of `hashtable_destroy`: the node behind `current` is read before `current` is freed. The
list is what `ht->free` was called with. -/
def destroyLoop : Nat → Option ν → NodeStore ν (Entry α) → Option (NodeStore ν (Entry α) × List α)
  | _, none, store => some (store, [])
  | 0, some _, _ => none
  | fuel + 1, some entry, store => do
    let (e, current) ← store.load entry
    let store ← store.free entry
    let (store, freed) ← destroyLoop fuel current store
    return (store, e.value :: freed)

def destroyHeads : List (Option ν) → NodeStore ν (Entry α) → Option (NodeStore ν (Entry α) × List α)
  | [], store => some (store, [])
  | head :: heads, store => do
    let (store, freed) ← destroyLoop store.live.card head store
    let (store, freed') ← destroyHeads heads store
    return (store, freed ++ freed')

namespace NodeTable

theorem nbucket_pos {nbucket : Int} (h : ¬nbucket ≤ 0) : 0 < nbucket.toNat :=
  Int.pos_iff_toNat_pos.mp (Int.not_le.mp h)

def create (mallocOk callocOk : Bool) (nbucket : Int) : Option (NodeTable ν α) :=
  if h : nbucket ≤ 0 then none
  else if mallocOk && callocOk then some ⟨nbucket.toNat, nbucket_pos h, 0, fun _ => none, ⟨∅, ∅⟩⟩
  else none

def bucketOf (t : NodeTable ν α) (key : CString) : Fin t.nbucket :=
  ⟨(hashFunction key.bytes (int32 key.strlen)).toNat % t.nbucket, Nat.mod_lt _ t.pos⟩

def get (t : NodeTable ν α) (key : CString) : Option (Option α) :=
  getLoop key t.store t.store.live.card (t.buckets (t.bucketOf key))

def add (t : NodeTable ν α) (malloc : Option (Malloc ν)) (strdupOk : Bool) (key : CString) (value : α) :
    Option (NodeTable ν α × Option α) := do
  let bucket := t.bucketOf key
  match ← getLoop key t.store t.store.live.card (t.buckets bucket), malloc with
  | some v, _ => return (t, some v)
  | none, none => return (t, none)
  | none, some malloc =>
    let e := malloc.fresh t.store.live
    let store := t.store.alloc e (⟨key, value⟩, t.buckets bucket)
    if strdupOk then
      return ({ t with buckets := Function.update t.buckets bucket (some e), store := store,
                       size := int32 (t.size + 1) }, none)
    else
      -- nothing has been stored in the node yet, and nothing reads it
      let store ← store.free e
      return ({ t with store := store }, none)

def del (t : NodeTable ν α) (key : CString) : Option (NodeTable ν α × Int) := do
  let bucket := t.bucketOf key
  let head := t.buckets bucket
  let (c, found) ← delLoop key t.store.live.card none head ⟨head, t.store, t.size⟩
  return ({ t with buckets := Function.update t.buckets bucket c.head, store := c.store, size := c.size },
    found)

def sweep (t : NodeTable ν α) (expired : α → Bool) : Option (NodeTable ν α × Int) := do
  let (buckets, store, size, removed) ←
    sweepHeads expired (List.finRange t.nbucket) t.buckets t.store t.size 0
  return ({ t with buckets := buckets, store := store, size := size }, removed)

def values (allocOk : Int → Bool) (t : NodeTable ν α) : Option (List α × Int) :=
  (valuesHeads allocOk t.store ((List.finRange t.nbucket).map t.buckets) ⟨[], 0, 0, none⟩).map
    fun v => (v.stored, v.cnt)

def destroy (t : NodeTable ν α) : Option (NodeStore ν (Entry α) × List α) :=
  destroyHeads ((List.finRange t.nbucket).map t.buckets) t.store

/-- The table of lists with these chains. -/
def plain (t : NodeTable ν α) (chains : Fin t.nbucket → List (ν × Entry α)) : Hashtable α :=
  ⟨t.nbucket, t.pos, t.size, fun i => (chains i).map Prod.snd⟩

/-- The nodes in use are those of the buckets, each in one place, and hold the entries of the lists. -/
def Holds (t : NodeTable ν α) (ht : Hashtable α) : Prop :=
  ∃ chains, t.store.Partitioned t.buckets chains ∧ t.plain chains = ht

end NodeTable

section Loops

variable {s : NodeStore ν (Entry α)} {current : Option ν} {rest : List (ν × Entry α)} {fuel : Nat}

theorem getLoop_spec (key : CString) (h : s.Segment current rest none) (hfuel : rest.length ≤ fuel) :
    getLoop key s fuel current = some (getChain key (rest.map Prod.snd)) := by
  induction rest generalizing current fuel with
  | nil =>
    have hcurrent : current = none := h
    subst hcurrent
    cases fuel <;> rfl
  | cons x rest ih =>
    obtain ⟨rfl, next, hload, hbehind⟩ := h
    obtain ⟨fuel, rfl⟩ : ∃ n, fuel = n + 1 := ⟨fuel - 1, by simp at hfuel; omega⟩
    by_cases hkey : sameKey key x.2 = true
    · simp [getLoop, hload, getChain, (sameKey_iff key x.2).mp hkey]
    · have hno : ¬x.2.key = key := fun he => hkey ((sameKey_iff key x.2).mpr he)
      have hrest := ih hbehind (by simpa using hfuel)
      simp [getLoop, hload, getChain, hno, hrest]

theorem valuesLoop_cons (allocOk : Int → Bool) (e : Entry α) (es : List (Entry α)) (v : Values α) :
    valuesLoop allocOk (e :: es) v =
      (v.push allocOk e.value).bind fun r => if r.2 then valuesLoop allocOk es r.1 else some r.1 := by
  simp only [valuesLoop, Values.push]
  split_ifs <;> simp [Option.bind_map]

theorem valuesBucket_spec (allocOk : Int → Bool) (es : List (Entry α)) (v : Values α)
    (h : s.Segment current rest none) (hfuel : rest.length ≤ fuel) :
    valuesLoop allocOk (rest.map Prod.snd ++ es) v =
      (valuesBucket allocOk s fuel current v).bind fun r =>
        if r.2 then valuesLoop allocOk es r.1 else some r.1 := by
  induction rest generalizing current fuel v with
  | nil =>
    have hcurrent : current = none := h
    subst hcurrent
    cases fuel <;> rfl
  | cons x rest ih =>
    obtain ⟨rfl, next, hload, hbehind⟩ := h
    obtain ⟨fuel, rfl⟩ : ∃ n, fuel = n + 1 := ⟨fuel - 1, by simp at hfuel; omega⟩
    have hrest := fun u => ih u hbehind (by simpa using hfuel)
    rw [List.map_cons, List.cons_append, valuesLoop_cons]
    cases hpush : v.push allocOk x.2.value with
    | none => simp [valuesBucket, hload, hpush]
    | some r =>
      cases hmore : r.2 with
      | true => simp [valuesBucket, hload, hpush, hmore, hrest]
      | false => simp [valuesBucket, hload, hpush, hmore]

theorem destroyLoop_spec (h : s.Segment current rest none) (hfuel : rest.length ≤ fuel) :
    ∃ t, destroyLoop fuel current s = some (t, rest.map fun x => x.2.value) ∧
      (∀ n ∈ rest.map Prod.fst, n ∈ t.freed) ∧ s.freed ⊆ t.freed ∧
      ∀ n, n ∉ rest.map Prod.fst → t.load n = s.load n := by
  induction rest generalizing s current fuel with
  | nil =>
    have hcurrent : current = none := h
    subst hcurrent
    exact ⟨s, by cases fuel <;> rfl, by simp, fun _ hn => hn, fun _ _ => rfl⟩
  | cons x rest ih =>
    have hnodup := h.nodup
    obtain ⟨rfl, next, hload, hbehind⟩ := h
    obtain ⟨fuel, rfl⟩ : ∃ n, fuel = n + 1 := ⟨fuel - 1, by simp at hfuel; omega⟩
    obtain ⟨u, hfree, hfreed, hother⟩ := free_of_load hload
    rw [List.map_cons, List.nodup_cons] at hnodup
    have hbehind' : u.Segment next rest none := by
      refine hbehind.frame fun y hy => hother y.1 fun he => hnodup.1 ?_
      exact he ▸ List.mem_map_of_mem hy
    obtain ⟨t, hloop, hgone, hkept, hsame⟩ := ih hbehind' (by simpa using hfuel)
    refine ⟨t, ?_, fun n hn => ?_, fun n hn => ?_, fun n hn => ?_⟩
    · simp [destroyLoop, hload, hfree, hloop]
    · rw [List.map_cons, List.mem_cons] at hn
      rcases hn with rfl | hn
      · exact hkept (hfreed ▸ Finset.mem_insert_self _ _)
      · exact hgone n hn
    · exact hkept (hfreed ▸ Finset.mem_insert_of_mem hn)
    · rw [List.map_cons, List.mem_cons, not_or] at hn
      rw [hsame n hn.2, hother n hn.1]

end Loops

section Buckets

variable {n : Nat} {s : NodeStore ν (Entry α)} {heads : Fin n → Option ν}
  {chains : Fin n → List (ν × Entry α)}

theorem sweepHeads_spec (expired : α → Bool) (is : List (Fin n)) (size removed : Int)
    (h : s.Partitioned heads chains) :
    ∃ heads' t chains', t.Partitioned heads' chains' ∧
      sweepHeads expired is heads s size removed = some (heads', t,
        (sweepBuckets expired is (fun i => (chains i).map Prod.snd) size removed).2) ∧
      (sweepBuckets expired is (fun i => (chains i).map Prod.snd) size removed).1 =
        fun i => (chains' i).map Prod.snd := by
  induction is generalizing s heads chains size removed with
  | nil => exact ⟨heads, s, chains, h, rfl, rfl⟩
  | cons i is ih =>
    have hsegment := h.segment i
    have hstart : (⟨heads i, s, size⟩ : NodeChain ν α).store.Segment (heads i) [] (heads i) := rfl
    obtain ⟨c, removed', hloop, hholds, hfreed, hother, hcount⟩ :=
      sweepLoop_spec expired removed hstart hsegment hsegment.nodup hsegment.length_le
    rw [List.nil_append] at hholds
    change sweepLoop expired s.live.card none (heads i) ⟨heads i, s, size⟩ removed = _ at hloop
    have hnext := h.replace i hholds (fun m hm _ => hother m hm) (fun m hm => Or.inl ?_)
      fun m hm hno => ?_
    · obtain ⟨heads', t, chains', ht, hrest, hchains⟩ := ih c.size removed' hnext
      have hbuckets : (fun j => (Function.update chains i
          ((chains i).filter fun x => !expired x.2.value) j).map Prod.snd) =
          Function.update (fun j => (chains j).map Prod.snd) i
            (sweepChain expired ((chains i).map Prod.snd) size removed).1 := by
        rw [sweepChain_fst, List.filter_map]
        exact Function.comp_update _ _ _ _
      rw [hbuckets] at hrest hchains
      refine ⟨heads', t, chains', ht, ?_, ?_⟩
      · rw [sweepBuckets, hcount, sweepHeads, hloop]
        exact hrest
      · rw [sweepBuckets, hcount, hchains]
    · obtain ⟨x, hx, rfl⟩ := List.mem_map.mp hm
      exact List.mem_map_of_mem (List.mem_of_mem_filter hx)
    · obtain ⟨x, hx, rfl⟩ := List.mem_map.mp hm
      refine notMem_live_of_freed ?_
      rw [hfreed]
      refine Finset.mem_union_right _ (List.mem_toFinset.mpr (List.mem_map_of_mem ?_))
      rw [List.mem_filter]
      refine ⟨hx, by_contra fun hfresh => hno (List.mem_map_of_mem ?_)⟩
      simp [hx, hfresh]

theorem valuesHeads_spec (allocOk : Int → Bool) (is : List (Fin n)) (v : Values α)
    (h : s.Partitioned heads chains) :
    valuesHeads allocOk s (is.map heads) v =
      valuesLoop allocOk (is.flatMap fun i => (chains i).map Prod.snd) v := by
  induction is generalizing v with
  | nil => rfl
  | cons i is ih =>
    rw [List.flatMap_cons, valuesBucket_spec allocOk _ v (h.segment i) (h.segment i).length_le,
      List.map_cons, valuesHeads]
    cases hbucket : valuesBucket allocOk s s.live.card (heads i) v with
    | none => rfl
    | some r =>
      cases hmore : r.2 with
      | true => simp [hmore, ih]
      | false => simp [hmore]

theorem destroyHeads_spec (is : List (Fin n)) (hnodup : is.Nodup) (h : s.Partitioned heads chains) :
    ∃ t heads', t.Partitioned heads' (fun i => if i ∈ is then [] else chains i) ∧
      destroyHeads (is.map heads) s = some (t, is.flatMap fun i => (chains i).map fun x => x.2.value) := by
  induction is generalizing s heads chains with
  | nil => exact ⟨s, heads, by simpa using h, rfl⟩
  | cons i is ih =>
    rw [List.nodup_cons] at hnodup
    obtain ⟨u, hloop, hgone, -, hother⟩ := destroyLoop_spec (h.segment i) (h.segment i).length_le
    have hnone : u.Segment none [] none := rfl
    have hempty := h.replace i hnone (fun m hm _ => hother m hm)
      (fun m hm => absurd hm List.not_mem_nil) fun m hm _ => notMem_live_of_freed (hgone m hm)
    obtain ⟨t, heads', ht, hrest⟩ := ih hnodup.2 hempty
    have hne : ∀ j ∈ is, j ≠ i := by
      rintro j hj rfl
      exact hnodup.1 hj
    have hheads : is.map (Function.update heads i none) = is.map heads :=
      List.map_congr_left fun j hj => Function.update_of_ne (hne j hj) _ _
    have hchains : (is.flatMap fun j => (Function.update chains i [] j).map fun x => x.2.value) =
        is.flatMap fun j => (chains j).map fun x => x.2.value :=
      List.flatMap_congr fun j hj => by rw [Function.update_of_ne (hne j hj)]
    rw [hheads, hchains] at hrest
    refine ⟨t, heads', ?_, ?_⟩
    · convert ht using 2 with j
      by_cases hj : j = i
      · simp [hj]
      · simp [hj]
    · rw [List.map_cons, destroyHeads, List.flatMap_cons]
      simp [hloop, hrest]

end Buckets

end Tcpkit
