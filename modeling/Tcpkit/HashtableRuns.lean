import Tcpkit.Table

/-! Whole runs of calls on a hash table against the same calls on a finite map
from strings to values. -/

namespace Tcpkit

open MachineInt

variable {α : Type}

inductive HashtableCall (α : Type) where
  | add (key : CString) (value : α)
  | get (key : CString)
  | del (key : CString)
  | sweep (expired : α → Bool)

inductive HashtableReply (α : Type) where
  | value (v : Option α)
  | count (n : Int)

def hashtableCall (ht : Hashtable α) : HashtableCall α → Hashtable α × HashtableReply α
  | .add key value => Prod.map id .value (hashtableAdd true true ht key value)
  | .get key => (ht, .value (hashtableGet ht key))
  | .del key => Prod.map id .count (hashtableDel ht key)
  | .sweep expired => Prod.map id .count (hashtableSweep ht expired)

/-- The same calls on an abstract finite map: the first writer wins, deletion
reports whether the key was there, a sweep counts what it drops. -/
def mapCall (m : Finmap fun _ : CString => α) :
    HashtableCall α → (Finmap fun _ : CString => α) × HashtableReply α
  | .add key value => (m.addNew key value, .value (m.lookup key))
  | .get key => (m, .value (m.lookup key))
  | .del key => (m.erase key, .count (if key ∈ m.keys then 1 else 0))
  | .sweep expired =>
    (m.filterValues (fun v => !expired v), .count (m.entries.countP (fun e => expired e.2)))

def runCalls {σ : Type} (call : σ → HashtableCall α → σ × HashtableReply α) (s : σ) :
    List (HashtableCall α) → σ × List (HashtableReply α)
  | [] => (s, [])
  | c :: cs =>
    let r := call s c
    let rest := runCalls call r.1 cs
    (rest.1, r.2 :: rest.2)

namespace Hashtable

structure Represents (ht : Hashtable α) (m : Finmap fun _ : CString => α) : Prop where
  wellFormed : ht.WellFormed
  get_eq : ∀ key, hashtableGet ht key = m.lookup key

namespace Represents

variable {ht : Hashtable α} {m : Finmap fun _ : CString => α}

theorem toMap_eq (h : ht.Represents m) : ht.toMap h.wellFormed.chained = m := by
  apply Finmap.ext_lookup
  intro key
  rw [lookup_toMap, h.get_eq]

theorem length_eq (h : ht.Represents m) : ht.entries.length = m.keys.card := by
  rw [← card_toMap h.wellFormed.chained, h.toMap_eq]

theorem countP_eq (h : ht.Represents m) (expired : α → Bool) :
    ht.entries.countP (fun e => expired e.value) = m.entries.countP (fun e => expired e.2) := by
  rw [← h.toMap_eq]
  simp [toMap, List.countP_map, Function.comp_def]

theorem call (h : ht.Represents m) (c : HashtableCall α) :
    (hashtableCall ht c).1.Represents (mapCall m c).1 := by
  have hc := h.wellFormed.chained
  cases c with
  | add key value =>
    refine ⟨h.wellFormed.add true true, fun k => ?_⟩
    change hashtableGet (hashtableAdd true true ht key value).1 k = (m.addNew key value).lookup k
    rw [hc.get_add, Finmap.lookup_addNew, h.get_eq, h.get_eq]
  | get key => exact h
  | del key =>
    refine ⟨h.wellFormed.del key, fun k => ?_⟩
    change hashtableGet (hashtableDel ht key).1 k = (m.erase key).lookup k
    rw [hc.get_del]
    by_cases hk : k = key
    · subst hk
      simp
    · rw [if_neg hk, Finmap.lookup_erase_ne hk, h.get_eq]
  | sweep expired =>
    refine ⟨h.wellFormed.sweep expired, fun k => ?_⟩
    change hashtableGet (hashtableSweep ht expired).1 k = (m.filterValues _).lookup k
    rw [h.wellFormed.get_sweep, Finmap.lookup_filterValues, h.get_eq]

theorem reply (h : ht.Represents m) (hb : m.keys.card ≤ 2 ^ 30) (c : HashtableCall α) :
    (hashtableCall ht c).2 = (mapCall m c).2 := by
  have hc := h.wellFormed.chained
  cases c with
  | add key value =>
    change HashtableReply.value (hashtableAdd true true ht key value).2 = .value (m.lookup key)
    rw [← h.get_eq]
    cases hg : hashtableGet ht key with
    | some v => rw [add_of_get_some true true hg]
    | none => rw [add_of_get_none hg]
  | get key => exact congrArg HashtableReply.value (h.get_eq key)
  | del key =>
    change HashtableReply.count (hashtableDel ht key).2 = .count (if key ∈ m.keys then 1 else 0)
    cases hg : hashtableGet ht key with
    | some v =>
      have hm : key ∈ m.keys := by rw [Finmap.mem_keys_iff_isSome, ← h.get_eq, hg]; rfl
      rw [hc.del_of_get_some hg, if_pos hm]
    | none =>
      have hm : key ∉ m.keys := by rw [Finmap.mem_keys_iff_isSome, ← h.get_eq, hg]; simp
      rw [del_of_get_none hg, if_neg hm]
  | sweep expired =>
    change HashtableReply.count (hashtableSweep ht expired).2 = .count _
    have hle : ht.entries.countP (fun e => expired e.value) ≤ 2 ^ 30 :=
      List.countP_le_length.trans (h.length_eq.trans_le hb)
    have hfit : int32 (ht.entries.countP (fun e => expired e.value)) =
        ht.entries.countP (fun e => expired e.value) := int32_eq_self (by omega) (by omega)
    rw [sweep_eq h.wellFormed.size_eq, ← h.countP_eq]
    simp only [hfit]

theorem size_eq (h : ht.Represents m) (hb : m.keys.card ≤ 2 ^ 30) : ht.size = m.keys.card := by
  rw [h.wellFormed.size_eq, h.length_eq, int32_eq_self (by omega) (by omega)]

theorem run (h : ht.Represents m) (calls : List (HashtableCall α)) :
    (runCalls hashtableCall ht calls).1.Represents (runCalls mapCall m calls).1 := by
  induction calls generalizing ht m with
  | nil => exact h
  | cons c cs ih => exact ih (h.call c)

theorem replies (h : ht.Represents m) (calls : List (HashtableCall α))
    (hb : ∀ n, (runCalls mapCall m (calls.take n)).1.keys.card ≤ 2 ^ 30) :
    (runCalls hashtableCall ht calls).2 = (runCalls mapCall m calls).2 := by
  induction calls generalizing ht m with
  | nil => rfl
  | cons c cs ih =>
    have hhead := h.reply (hb 0) c
    have htail := ih (h.call c) (fun n => hb (n + 1))
    simp only [runCalls, hhead, htail]

end Represents

end Hashtable

/-- The growing array after a number of stores. Its block holds at most `2 ^ 30` values: the doubled
capacity no longer fits an `int` then, and the size that is asked for is refused. -/
structure Values.Filled (v : Values α) : Prop where
  cnt_eq : v.cnt = v.stored.length
  room : v.block = none ∧ v.stored = [] ∨
    ∃ k ≤ 30, v.cap = 2 ^ k ∧ v.block = some (2 ^ k) ∧ v.stored.length ≤ 2 ^ k

theorem Values.Filled.empty : Values.Filled (⟨[], 0, 0, none⟩ : Values α) := ⟨rfl, .inl ⟨rfl, rfl⟩⟩

theorem Values.Filled.length_le {v : Values α} (hv : v.Filled) : v.stored.length ≤ 2 ^ 30 := by
  rcases hv.room with ⟨-, hempty⟩ | ⟨k, hk, -, -, hle⟩
  · simp [hempty]
  · exact hle.trans (Nat.pow_le_pow_right (by decide) hk)

theorem Values.store_eq {v : Values α} {slots : Nat} (value : α) (hb : v.block = some slots)
    (hc : v.cnt = v.stored.length) (hlt : v.stored.length < slots) (hs : slots ≤ 2 ^ 30) :
    v.store value = some { v with
      stored := v.stored ++ [value], cnt := (v.stored ++ [value]).length } := by
  have h0 : 0 ≤ v.cnt ∧ v.cnt < slots := by omega
  have h1 : int32 (v.cnt + 1) = (v.stored ++ [value]).length := by
    rw [int32_eq_self (by omega) (by omega), hc]
    simp
  simp only [Values.store, hb, h0, and_self, if_true, h1]

theorem int32_double {k : Nat} (hk : k < 30) : int32 (2 ^ k * 2) = 2 ^ (k + 1) := by
  have hlow : (0 : Int) ≤ 2 ^ (k + 1) := Int.pow_nonneg (by omega)
  have hhigh : (2 : Int) ^ (k + 1) ≤ 2 ^ 30 := by
    exact_mod_cast Nat.pow_le_pow_right (by omega : 0 < 2) (Nat.succ_le_of_lt hk)
  rw [← pow_succ]
  exact int32_eq_self (le_trans (by decide) hlow) (lt_of_le_of_lt hhigh (by decide))

theorem blockBytes_pow {k : Nat} (hk : k ≤ 30) : blockBytes (2 ^ k) = 8 * 2 ^ k := by
  have hbound : (2 : Nat) ^ k ≤ 2 ^ 30 := Nat.pow_le_pow_right (by omega) hk
  have hcast : (2 : Int) ^ k = (2 ^ k : Nat) := by push_cast; rfl
  rw [blockBytes, hcast]
  generalize 2 ^ k = n at hbound
  omega

theorem blockSlots_pow {k : Nat} (hk : k ≤ 30) : blockSlots (2 ^ k) = 2 ^ k := by
  rw [blockSlots, blockBytes_pow hk, Nat.mul_div_cancel_left _ (by decide)]

theorem reallocOk_pow (allocOk : Int → Bool) (cnt : Int) {k : Nat} (hk : k ≤ 30) :
    reallocOk allocOk cnt (2 ^ k) = allocOk cnt := by
  have hbound : (2 : Nat) ^ k ≤ 2 ^ 30 := Nat.pow_le_pow_right (by omega) hk
  rw [reallocOk, blockBytes_pow hk, decide_eq_true (by omega), Bool.and_true]

/-- At `2 ^ 30` values the request is for `2 ^ 64 - 2 ^ 34` bytes. -/
theorem reallocOk_overflow (allocOk : Int → Bool) (cnt : Int) :
    reallocOk allocOk cnt (int32 (2 ^ 30 * 2)) = false := by
  have hbytes : decide (blockBytes (int32 (2 ^ 30 * 2)) < 2 ^ 63) = false := by decide
  rw [reallocOk, hbytes, Bool.and_false]

/-- A value is stored in a block that has room for it. -/
theorem Values.store_filled {v : Values α} (hcnt : v.cnt = v.stored.length) {k : Nat} (hk : k ≤ 30)
    (hlt : v.stored.length < 2 ^ k) (allocOk : Int → Bool) (value : α) (es : List (Entry α)) :
    ∃ u : Values α, ({ v with cap := 2 ^ k, block := some (2 ^ k) }.store value).bind
        (valuesLoop allocOk es) = valuesLoop allocOk es u ∧
      u.Filled ∧ u.stored = v.stored ++ [value] := by
  have hbound : (2 : Nat) ^ k ≤ 2 ^ 30 := Nat.pow_le_pow_right (by decide) hk
  have hstore : { v with cap := 2 ^ k, block := some (2 ^ k) }.store value =
      some ⟨v.stored ++ [value], (v.stored ++ [value]).length, 2 ^ k, some (2 ^ k)⟩ :=
    Values.store_eq value rfl hcnt hlt hbound
  rw [hstore, Option.bind_some]
  refine ⟨_, rfl, ⟨rfl, .inr ⟨k, hk, rfl, rfl, ?_⟩⟩, rfl⟩
  rw [List.length_append]
  exact hlt

/-- One entry of the walk: its value is stored, or the walk ends where an allocation is refused. -/
theorem Values.Filled.step {v : Values α} (hv : v.Filled) (allocOk : Int → Bool) (e : Entry α)
    (es : List (Entry α)) :
    (∃ u : Values α, valuesLoop allocOk (e :: es) v = valuesLoop allocOk es u ∧ u.Filled ∧
      u.stored = v.stored ++ [e.value]) ∨
    ∃ w : Values α, valuesLoop allocOk (e :: es) v = some w ∧ w.stored = v.stored ∧ w.cnt = v.cnt ∧
      (allocOk v.cnt = false ∨ v.stored.length = 2 ^ 30) := by
  rcases hv.room with ⟨hnone, hempty⟩ | ⟨k, hk, hcap, hblock, hle⟩
  · simp only [valuesLoop, hnone, if_true]
    by_cases hok : allocOk v.cnt = true
    · rw [if_pos hok]
      exact .inl (Values.store_filled (k := 0) hv.cnt_eq (by decide) (by simp [hempty]) _ _ _)
    · rw [if_neg hok]
      exact .inr ⟨v, rfl, rfl, rfl, .inl (Bool.not_eq_true _ ▸ hok)⟩
  · have hpow : ((2 ^ k : Nat) : Int) = 2 ^ k := by push_cast; rfl
    have hcnt := hv.cnt_eq
    simp only [valuesLoop, hblock, reduceCtorEq, if_false]
    by_cases hfull : v.cnt = v.cap
    · have hlength : v.stored.length = 2 ^ k := by omega
      rw [if_pos hfull]
      rcases Nat.lt_or_eq_of_le hk with hlt | rfl
      · have hsucc : (2 : Nat) ^ (k + 1) = 2 ^ k * 2 := Nat.pow_succ 2 k
        have hpos := Nat.two_pow_pos k
        rw [hcap, int32_double hlt, reallocOk_pow allocOk _ hlt, blockSlots_pow hlt]
        by_cases hok : allocOk v.cnt = true
        · rw [if_pos hok]
          exact .inl (Values.store_filled hv.cnt_eq hlt (by omega) _ _ _)
        · rw [if_neg hok]
          exact .inr ⟨_, rfl, rfl, rfl, .inl (Bool.not_eq_true _ ▸ hok)⟩
      · rw [hcap, reallocOk_overflow]
        exact .inr ⟨_, rfl, rfl, rfl, .inr hlength⟩
    · have hself : { v with cap := 2 ^ k, block := some (2 ^ k) } = v := by rw [← hblock, ← hcap]
      rw [if_neg hfull]
      have hn := Values.store_filled hv.cnt_eq hk (by omega) allocOk e.value es
      rw [hself] at hn
      exact .inl hn

/-- Whatever is refused, the values of the first entries are stored and counted; where nothing is,
those of the first `2 ^ 30`. -/
theorem valuesLoop_prefix (allocOk : Int → Bool) (es : List (Entry α)) (v : Values α) (hv : v.Filled) :
    ∃ w n, valuesLoop allocOk es v = some w ∧ w.stored = v.stored ++ (es.take n).map Entry.value ∧
      w.cnt = w.stored.length ∧ w.stored.length ≤ 2 ^ 30 ∧
      ((∀ cnt, allocOk cnt = true) → v.stored.length + n = 2 ^ 30) := by
  induction es generalizing v with
  | nil =>
    have hle := hv.length_le
    exact ⟨v, 2 ^ 30 - v.stored.length, rfl, by simp, hv.cnt_eq, hle, fun _ => by omega⟩
  | cons e es ih =>
    rcases hv.step allocOk e es with ⟨u, hloop, hu, hstored⟩ | ⟨w, hw, hws, hwc, hrefused⟩
    · obtain ⟨w, n, hw, hws, hwc, hle, hall⟩ := ih u hu
      refine ⟨w, n + 1, hloop.trans hw, ?_, hwc, hle, fun h => ?_⟩
      · rw [hws, hstored, List.take_succ_cons, List.map_cons, List.append_assoc, List.singleton_append]
      · have hn := hall h
        rw [hstored, List.length_append, List.length_singleton] at hn
        omega
    · refine ⟨w, 0, hw, by simp [hws], ?_, ?_, fun h => ?_⟩
      · rw [hwc, hws]
        exact hv.cnt_eq
      · rw [hws]
        exact hv.length_le
      · rw [h] at hrefused
        exact hrefused.resolve_left (by decide)

theorem hashtableValues_prefix (allocOk : Int → Bool) (ht : Hashtable α) :
    ∃ n, hashtableValues allocOk ht =
        some ((ht.entries.take n).map Entry.value, ((ht.entries.take n).length : Int)) ∧
      ((∀ cnt, allocOk cnt = true) → n = 2 ^ 30) := by
  obtain ⟨w, n, hw, hws, hwc, -, hall⟩ := valuesLoop_prefix allocOk ht.entries
    ⟨[], 0, 0, none⟩ Values.Filled.empty
  rw [List.nil_append] at hws
  refine ⟨n, ?_, fun h => (Nat.zero_add n).symm.trans (hall h)⟩
  rw [hashtableValues, hw, Option.map_some, hwc, hws, List.length_map]

theorem hashtableValues_eq (ht : Hashtable α) :
    hashtableValues (fun _ => true) ht =
      some ((ht.entries.take (2 ^ 30)).map Entry.value, ((ht.entries.take (2 ^ 30)).length : Int)) := by
  obtain ⟨n, hvalues, hall⟩ := hashtableValues_prefix (fun _ => true) ht
  rw [hvalues, hall fun _ => rfl]

theorem Hashtable.Represents.values {ht : Hashtable α} {m : Finmap fun _ : CString => α}
    (h : ht.Represents m) (hb : m.keys.card ≤ 2 ^ 30) :
    ∃ vs, hashtableValues (fun _ => true) ht = some (vs, ht.size) ∧
      (vs : Multiset α) = m.entries.map Sigma.snd := by
  have hall : ht.entries.take (2 ^ 30) = ht.entries := List.take_of_length_le (h.length_eq.trans_le hb)
  refine ⟨ht.entries.map Entry.value, ?_, ?_⟩
  · rw [hashtableValues_eq, hall, h.size_eq hb, h.length_eq]
  · rw [← Hashtable.values_toMap h.wellFormed.chained, h.toMap_eq]

theorem represents_create {nbucket : Int} {ht : Hashtable α}
    (h : hashtableCreate nbucket = some ht) : ht.Represents ∅ := by
  refine ⟨Hashtable.WellFormed.create h, fun key => ?_⟩
  unfold hashtableCreate at h
  split at h
  · cases h
  · cases h
    rw [Finmap.lookup_empty]
    rfl

theorem mapCall_card_le (m : Finmap fun _ : CString => α) (c : HashtableCall α) :
    (mapCall m c).1.keys.card ≤ m.keys.card + 1 := by
  cases c with
  | add key value =>
    change (m.addNew key value).keys.card ≤ _
    rw [Finmap.keys_addNew]
    exact Finset.card_insert_le _ _
  | get key => exact Nat.le_succ _
  | del key =>
    change (m.erase key).keys.card ≤ _
    rw [Finmap.keys_erase]
    exact (Finset.card_erase_le).trans (Nat.le_succ _)
  | sweep expired =>
    exact (Finset.card_le_card (Finmap.keys_filterValues_subset _ m)).trans (Nat.le_succ _)

theorem runCalls_card_le (m : Finmap fun _ : CString => α) (calls : List (HashtableCall α)) :
    (runCalls mapCall m calls).1.keys.card ≤ m.keys.card + calls.length := by
  induction calls generalizing m with
  | nil => exact Nat.le_refl _
  | cons c cs ih =>
    have hstep := mapCall_card_le m c
    have hrest := ih (mapCall m c).1
    simp only [runCalls, List.length_cons]
    omega

theorem hashtableCall_nbucket (ht : Hashtable α) (c : HashtableCall α) :
    (hashtableCall ht c).1.nbucket = ht.nbucket := by
  cases c with
  | add key value =>
    simp only [hashtableCall, Prod.map_fst, id_eq, hashtableAdd, Bool.and_self, if_true]
    split <;> rfl
  | get key => rfl
  | del key =>
    simp only [hashtableCall, Prod.map_fst, id_eq, hashtableDel]
    split <;> rfl
  | sweep expired => rfl

theorem runCalls_nbucket (ht : Hashtable α) (calls : List (HashtableCall α)) :
    (runCalls hashtableCall ht calls).1.nbucket = ht.nbucket := by
  induction calls generalizing ht with
  | nil => rfl
  | cons c cs ih => exact (ih _).trans (hashtableCall_nbucket ht c)

/-- Every run of calls on a created table returns what the same calls on a
finite map return, whatever the number of buckets, and after every call the
table is an exact layout of that map. -/
theorem hashtable_refines_map {nbucket : Int} (hn : 0 < nbucket) (calls : List (HashtableCall α))
    (hlive : ∀ n, (runCalls mapCall ∅ (calls.take n)).1.keys.card ≤ 2 ^ 30) :
    ∃ ht₀ : Hashtable α, hashtableCreate nbucket = some ht₀ ∧
      (runCalls hashtableCall ht₀ calls).2 = (runCalls mapCall ∅ calls).2 ∧
      (∀ n,
        let ht := (runCalls hashtableCall ht₀ (calls.take n)).1
        let m := (runCalls mapCall ∅ (calls.take n)).1
        ht.size = m.keys.card ∧ ht.nbucket = nbucket.toNat ∧
        (∀ i, ∀ e ∈ ht.buckets i,
          (hashFunction e.key.bytes (int32 e.key.strlen)).toNat % ht.nbucket = i) ∧
        (ht.entries.map Entry.key).Nodup ∧
        (∀ key v, ⟨key, v⟩ ∈ ht.entries ↔ m.lookup key = some v) ∧
        ∃ vs, hashtableValues (fun _ => true) ht = some (vs, ht.size) ∧
          (vs : Multiset α) = m.entries.map Sigma.snd) ∧
      ∀ nbucket' ht₁, hashtableCreate nbucket' = some ht₁ →
        (runCalls hashtableCall ht₁ calls).2 = (runCalls hashtableCall ht₀ calls).2 := by
  have hcreate : hashtableCreate nbucket =
      some (⟨nbucket.toNat, by omega, 0, fun _ => []⟩ : Hashtable α) := by
    simp [hashtableCreate, hn]
  have hstart := represents_create hcreate
  refine ⟨_, hcreate, hstart.replies calls hlive, fun n => ?_, fun nbucket' ht₁ h₁ => ?_⟩
  · have hrun := hstart.run (calls.take n)
    have hchained := hrun.wellFormed.chained
    refine ⟨hrun.size_eq (hlive n), runCalls_nbucket _ _, fun i e he => ?_, hchained.keys_nodup,
      fun key v => ?_, hrun.values (hlive n)⟩
    · rw [← Hashtable.bucketOf_val, hchained.placed i e he]
    · rw [← hchained.get_eq_some_iff, hrun.get_eq]
  · rw [(represents_create h₁).replies calls hlive, hstart.replies calls hlive]

theorem hashtable_refines_map_duplicate_key : ∃ ht₀ : Hashtable Nat,
    hashtableCreate 1 = some ht₀ ∧
    (runCalls hashtableCall ht₀ [.add (CString.decimal 7) 1, .add (CString.decimal 7) 2,
      .sweep (fun v => v = 1), .del (CString.decimal 7)]).2 =
      [.value none, .value (some 1), .count 1, .count 0] := by
  have hlive (n : Nat) := (runCalls_card_le (∅ : Finmap fun _ : CString => Nat)
    (([.add (CString.decimal 7) 1, .add (CString.decimal 7) 2,
      .sweep (fun v => v = 1), .del (CString.decimal 7)] : List (HashtableCall Nat)).take n))
  obtain ⟨ht₀, hcreate, hreplies, -⟩ := hashtable_refines_map (by decide : (0 : Int) < 1)
    [.add (CString.decimal 7) 1, .add (CString.decimal 7) 2,
      .sweep (fun v => v = 1), .del (CString.decimal 7)]
    (fun n => (hlive n).trans (by simp))
  exact ⟨ht₀, hcreate, hreplies.trans rfl⟩

end Tcpkit
