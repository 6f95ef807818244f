import Mathlib.Data.List.Nodup
import Tcpkit.Hashtable

/-! What the loops over one bucket chain compute, and the structural invariant
that keeps every key in the chain its hash selects. -/

namespace Tcpkit

open MachineInt

variable {α : Type}

@[simp]
theorem sameKey_iff (key : CString) (e : Entry α) : sameKey key e = true ↔ e.key = key := by
  rw [sameKey]
  by_cases h : key.strlen = e.key.strlen
  · simp only [h, beq_self_eq_true, Bool.true_and]
    rw [← h, CString.strncmpEq_strlen h, eq_comm]
  · have hne : e.key ≠ key := fun he => h (by rw [he])
    simp [h, hne]

theorem getChain_eq_none_iff (key : CString) (chain : List (Entry α)) :
    getChain key chain = none ↔ key ∉ chain.map Entry.key := by
  induction chain with
  | nil => simp [getChain]
  | cons e rest ih =>
    by_cases h : e.key = key
    · simp [getChain, h]
    · simp [getChain, h, ih, Ne.symm h]

theorem getChain_eq_some_iff {key : CString} {chain : List (Entry α)}
    (hn : (chain.map Entry.key).Nodup) (v : α) :
    getChain key chain = some v ↔ ⟨key, v⟩ ∈ chain := by
  induction chain with
  | nil => simp [getChain]
  | cons e rest ih =>
    obtain ⟨hnot, hrest⟩ := List.nodup_cons.mp hn
    by_cases h : e.key = key
    · have hno : ∀ w, (⟨key, w⟩ : Entry α) ∉ rest := fun w hw =>
        hnot (List.mem_map.mpr ⟨_, hw, h.symm⟩)
      have he : (⟨key, v⟩ : Entry α) = e ↔ e.value = v := by
        constructor
        · rintro rfl
          rfl
        · rintro rfl
          rw [← h]
      simp [getChain, h, hno, he]
    · have hne : (⟨key, v⟩ : Entry α) ≠ e := fun he => h (by rw [← he])
      simp [getChain, h, ih hrest, hne]

theorem filter_key_ne_of_notMem {key : CString} {chain : List (Entry α)}
    (h : key ∉ chain.map Entry.key) : chain.filter (fun e => e.key ≠ key) = chain := by
  apply List.filter_eq_self.mpr
  intro e he
  simpa using fun hk : e.key = key => h (List.mem_map.mpr ⟨e, he, hk⟩)

theorem delChain_eq {key : CString} {chain : List (Entry α)} (hn : (chain.map Entry.key).Nodup) :
    delChain key chain =
      if key ∈ chain.map Entry.key then some (chain.filter (fun e => e.key ≠ key)) else none := by
  induction chain with
  | nil => simp [delChain]
  | cons e rest ih =>
    obtain ⟨hnot, hrest⟩ := List.nodup_cons.mp hn
    by_cases h : e.key = key
    · have hf := filter_key_ne_of_notMem (h ▸ hnot)
      simp only [ne_eq, decide_not] at hf
      simp [delChain, h, hf]
    · by_cases hm : key ∈ rest.map Entry.key
      · simp [delChain, h, ih hrest, hm]
      · simp [delChain, h, ih hrest, hm, Ne.symm h]

theorem adjustChain_eq {key : CString} {chain : List (Entry α)} (f : α → α)
    (hn : (chain.map Entry.key).Nodup) :
    adjustChain key f chain =
      chain.map (fun e => if e.key = key then ⟨e.key, f e.value⟩ else e) := by
  induction chain with
  | nil => rfl
  | cons e rest ih =>
    obtain ⟨hnot, hrest⟩ := List.nodup_cons.mp hn
    by_cases h : e.key = key
    · have hm : rest.map (fun e => if e.key = key then ⟨e.key, f e.value⟩ else e) = rest := by
        refine (List.map_congr_left fun x hx => ?_).trans (List.map_id _)
        have hne : x.key ≠ key := fun hk => hnot (List.mem_map.mpr ⟨x, hx, hk.trans h.symm⟩)
        simp [hne]
      simp [adjustChain, h, hm]
    · simp [adjustChain, h, ih hrest]

theorem sweepChain_eq (expired : α → Bool) (chain : List (Entry α)) (a b : Int) :
    sweepChain expired chain (int32 a) (int32 b) =
      (chain.filter (fun e => !expired e.value),
        int32 (a - chain.countP (fun e => expired e.value)),
        int32 (b + chain.countP (fun e => expired e.value))) := by
  induction chain generalizing a b with
  | nil => simp [sweepChain]
  | cons e rest ih =>
    by_cases h : expired e.value = true
    · have hh := ih (a - 1) (b + 1)
      simp only [sweepChain, h, if_true, int32_int32_sub, int32_int32_add, hh, Bool.not_true,
        Bool.false_eq_true, not_false_eq_true, List.filter_cons_of_neg, List.countP_cons_of_pos,
        Nat.cast_add, Nat.cast_one]
      congr 3 <;> omega
    · simp [sweepChain, h, ih a b]

theorem sweepBuckets_eq (expired : α → Bool) {n : Nat} (is : List (Fin n)) (hn : is.Nodup)
    (buckets : Fin n → List (Entry α)) (a b : Int) :
    sweepBuckets expired is buckets (int32 a) (int32 b) =
      (fun i => if i ∈ is then (buckets i).filter (fun e => !expired e.value) else buckets i,
        int32 (a - (is.flatMap buckets).countP (fun e => expired e.value)),
        int32 (b + (is.flatMap buckets).countP (fun e => expired e.value))) := by
  induction is generalizing buckets a b with
  | nil => simp [sweepBuckets]
  | cons i is ih =>
    obtain ⟨hi, his⟩ := List.nodup_cons.mp hn
    let chain := (buckets i).filter (fun e => !expired e.value)
    have hflat : is.flatMap (Function.update buckets i chain) = is.flatMap buckets := by
      apply List.flatMap_congr
      intro j hj
      have hne : j ≠ i := fun he => hi (he ▸ hj)
      exact Function.update_of_ne hne _ _
    have hbuckets : (fun j => if j ∈ is then
          (Function.update buckets i chain j).filter (fun e => !expired e.value)
        else Function.update buckets i chain j) =
        fun j => if j ∈ i :: is then (buckets j).filter (fun e => !expired e.value)
          else buckets j := by
      funext j
      by_cases hj : j = i
      · subst hj
        simp [hi, chain]
      · simp [hj]
    simp only [sweepBuckets, sweepChain_eq]
    rw [ih his, hbuckets, hflat, List.flatMap_cons, List.countP_append, Nat.cast_add]
    congr 3 <;> omega

namespace Hashtable

/-- Every entry is in the chain of its hash and no chain repeats a key. -/
structure Chained (ht : Hashtable α) : Prop where
  placed : ∀ i, ∀ e ∈ ht.buckets i, ht.bucketOf e.key = i
  nodup : ∀ i, ((ht.buckets i).map Entry.key).Nodup

theorem mem_entries {ht : Hashtable α} {e : Entry α} :
    e ∈ ht.entries ↔ ∃ i, e ∈ ht.buckets i := by
  simp [entries]

theorem bucketOf_val (ht : Hashtable α) (key : CString) :
    (ht.bucketOf key : Nat) =
      (hashFunction key.bytes (int32 key.strlen)).toNat % ht.nbucket := rfl

theorem setChain_bucketOf (ht : Hashtable α) (b : Fin ht.nbucket) (chain : List (Entry α))
    (n : Int) (key : CString) : (ht.setChain b chain n).bucketOf key = ht.bucketOf key := rfl

theorem setChain_buckets (ht : Hashtable α) (b : Fin ht.nbucket) (chain : List (Entry α))
    (n : Int) : (ht.setChain b chain n).buckets = Function.update ht.buckets b chain := rfl

namespace Chained

variable {ht : Hashtable α}

theorem mem_entries_iff (h : ht.Chained) {e : Entry α} :
    e ∈ ht.entries ↔ e ∈ ht.buckets (ht.bucketOf e.key) := by
  rw [mem_entries]
  constructor
  · intro hh
    rcases hh with ⟨i, hi⟩
    rwa [h.placed i e hi]
  · intro he
    exact ⟨_, he⟩

theorem keys_nodup (h : ht.Chained) : (ht.entries.map Entry.key).Nodup := by
  rw [entries, List.map_flatMap, List.nodup_flatMap]
  refine ⟨fun i _ => h.nodup i, ?_⟩
  refine (List.nodup_finRange _).imp ?_
  intro i j hij key hi hj
  obtain ⟨e, he, rfl⟩ := List.mem_map.mp hi
  obtain ⟨e', he', hk⟩ := List.mem_map.mp hj
  apply hij
  rw [← h.placed i e he, ← hk, h.placed j e' he']

theorem entries_nodup (h : ht.Chained) : ht.entries.Nodup := h.keys_nodup.of_map

theorem get_eq_some_iff (h : ht.Chained) {key : CString} {v : α} :
    hashtableGet ht key = some v ↔ ⟨key, v⟩ ∈ ht.entries := by
  rw [hashtableGet, getChain_eq_some_iff (h.nodup _), h.mem_entries_iff]

theorem get_eq_none_iff (h : ht.Chained) {key : CString} :
    hashtableGet ht key = none ↔ ∀ e ∈ ht.entries, e.key ≠ key := by
  rw [hashtableGet, getChain_eq_none_iff]
  constructor
  · rintro hk e he rfl
    exact hk (List.mem_map.mpr ⟨e, h.mem_entries_iff.mp he, rfl⟩)
  · intro hall hk
    obtain ⟨e, he, hek⟩ := List.mem_map.mp hk
    exact hall e (mem_entries.mpr ⟨_, he⟩) hek

theorem setChain (h : ht.Chained) {b : Fin ht.nbucket} {chain : List (Entry α)} (n : Int)
    (hp : ∀ e ∈ chain, ht.bucketOf e.key = b) (hn : (chain.map Entry.key).Nodup) :
    (ht.setChain b chain n).Chained where
  placed := by
    intro (i : Fin ht.nbucket) e (he : e ∈ Function.update ht.buckets b chain i)
    change ht.bucketOf e.key = i
    by_cases hi : i = b
    · subst hi
      exact hp e (by simpa using he)
    · exact h.placed i e (by simpa [hi] using he)
  nodup := by
    intro (i : Fin ht.nbucket)
    change ((Function.update ht.buckets b chain i).map Entry.key).Nodup
    by_cases hi : i = b
    · subst hi
      simpa using hn
    · simpa [hi] using h.nodup i

theorem mem_setChain (h : ht.Chained) {b : Fin ht.nbucket} {chain : List (Entry α)} {n : Int}
    (hp : ∀ e ∈ chain, ht.bucketOf e.key = b) (hn : (chain.map Entry.key).Nodup) {e : Entry α} :
    e ∈ (ht.setChain b chain n).entries ↔
      if ht.bucketOf e.key = b then e ∈ chain else e ∈ ht.entries := by
  rw [(h.setChain n hp hn).mem_entries_iff, setChain_bucketOf, setChain_buckets]
  by_cases hb : ht.bucketOf e.key = b
  · simp [hb]
  · simp [hb, h.mem_entries_iff]

end Chained

end Hashtable

end Tcpkit
