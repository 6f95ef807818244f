import Mathlib.Data.List.Perm.Basic
import Tcpkit.Chains

/-! The invariant of `hashtable.c` and its preservation by every operation. The
entry counter is compared modulo the width of an `int`, so that no operation
needs a bound on the number of entries. -/

namespace Tcpkit

open MachineInt

variable {α : Type}

namespace Hashtable

/-- Chains as their hashes demand, and a counter that agrees with them up to
the width of an `int`. -/
structure WellFormed (ht : Hashtable α) : Prop where
  chained : ht.Chained
  size_eq : ht.size = int32 ht.entries.length

variable {ht : Hashtable α} {key : CString} {value : α}

theorem add_of_get_some {v : α} (m s : Bool) (hg : hashtableGet ht key = some v) :
    hashtableAdd m s ht key value = (ht, some v) := by
  unfold hashtableGet at hg
  simp [hashtableAdd, hg]

theorem add_of_get_none (hg : hashtableGet ht key = none) :
    hashtableAdd true true ht key value =
      (ht.setChain (ht.bucketOf key) (⟨key, value⟩ :: ht.buckets (ht.bucketOf key))
        (int32 (ht.size + 1)), none) := by
  unfold hashtableGet at hg
  simp [hashtableAdd, hg]

theorem add_of_alloc_failed {m s : Bool} (hf : (m && s) = false) :
    (hashtableAdd m s ht key value).1 = ht := by
  simp only [hashtableAdd, hf, Bool.false_eq_true, if_false]
  split <;> rfl

theorem del_of_get_none (hg : hashtableGet ht key = none) : hashtableDel ht key = (ht, 0) := by
  have hd : delChain key (ht.buckets (ht.bucketOf key)) = none := by
    rw [hashtableGet, getChain_eq_none_iff] at hg
    generalize ht.buckets (ht.bucketOf key) = chain at hg
    induction chain with
    | nil => rfl
    | cons e rest ih =>
      simp only [List.map_cons, List.mem_cons, not_or] at hg
      simp [delChain, Ne.symm hg.1, ih hg.2]
  simp [hashtableDel, hd]

namespace Chained

theorem add_chain (h : ht.Chained) (value : α) (hg : hashtableGet ht key = none) :
    (∀ e ∈ (⟨key, value⟩ :: ht.buckets (ht.bucketOf key) : List (Entry α)),
        ht.bucketOf e.key = ht.bucketOf key) ∧
      ((⟨key, value⟩ :: ht.buckets (ht.bucketOf key)).map Entry.key).Nodup := by
  constructor
  · intro e he
    rcases List.mem_cons.mp he with rfl | he
    · rfl
    · exact h.placed _ e he
  · rw [List.map_cons, List.nodup_cons]
    exact ⟨(getChain_eq_none_iff _ _).mp hg, h.nodup _⟩

theorem del_chain (h : ht.Chained) (key : CString) :
    (∀ e ∈ (ht.buckets (ht.bucketOf key)).filter (fun e => e.key ≠ key),
        ht.bucketOf e.key = ht.bucketOf key) ∧
      (((ht.buckets (ht.bucketOf key)).filter (fun e => e.key ≠ key)).map Entry.key).Nodup :=
  ⟨fun e he => h.placed _ e (List.mem_of_mem_filter he),
    (h.nodup _).sublist (List.filter_sublist.map _)⟩

theorem del_of_get_some {v : α} (h : ht.Chained) (hg : hashtableGet ht key = some v) :
    hashtableDel ht key =
      (ht.setChain (ht.bucketOf key)
        ((ht.buckets (ht.bucketOf key)).filter (fun e => e.key ≠ key)) (int32 (ht.size - 1)), 1) := by
  have hm : key ∈ (ht.buckets (ht.bucketOf key)).map Entry.key := by
    by_contra hno
    rw [hashtableGet, (getChain_eq_none_iff _ _).mpr hno] at hg
    cases hg
  simp [hashtableDel, delChain_eq (h.nodup _), hm]

theorem mem_add (h : ht.Chained) (hg : hashtableGet ht key = none) {e : Entry α} :
    e ∈ (hashtableAdd true true ht key value).1.entries ↔ e = ⟨key, value⟩ ∨ e ∈ ht.entries := by
  obtain ⟨hp, hn⟩ := h.add_chain value hg
  rw [add_of_get_none hg, h.mem_setChain hp hn]
  by_cases hb : ht.bucketOf e.key = ht.bucketOf key
  · rw [if_pos hb, List.mem_cons, h.mem_entries_iff, hb]
  · have hne : e ≠ ⟨key, value⟩ := fun he => hb (by rw [he])
    simp [hb, hne]

theorem mem_del (h : ht.Chained) {v : α} (hg : hashtableGet ht key = some v) {e : Entry α} :
    e ∈ (hashtableDel ht key).1.entries ↔ e ∈ ht.entries ∧ e.key ≠ key := by
  obtain ⟨hp, hn⟩ := h.del_chain key
  rw [h.del_of_get_some hg, h.mem_setChain hp hn]
  by_cases hb : ht.bucketOf e.key = ht.bucketOf key
  · rw [if_pos hb, List.mem_filter, h.mem_entries_iff, hb]
    simp
  · have hne : e.key ≠ key := fun he => hb (by rw [he])
    simp [hb, hne]

theorem add (h : ht.Chained) (m s : Bool) : (hashtableAdd m s ht key value).1.Chained := by
  cases hg : hashtableGet ht key with
  | some v =>
    rw [add_of_get_some m s hg]
    exact h
  | none =>
    by_cases hok : (m && s) = true
    · obtain ⟨rfl, rfl⟩ := Bool.and_eq_true_iff.mp hok
      obtain ⟨hp, hn⟩ := h.add_chain value hg
      rw [add_of_get_none hg]
      exact h.setChain _ hp hn
    · rw [add_of_alloc_failed (Bool.eq_false_iff.mpr hok)]
      exact h

theorem del (h : ht.Chained) (key : CString) : (hashtableDel ht key).1.Chained := by
  cases hg : hashtableGet ht key with
  | none =>
    rw [del_of_get_none hg]
    exact h
  | some v =>
    obtain ⟨hp, hn⟩ := h.del_chain key
    rw [h.del_of_get_some hg]
    exact h.setChain _ hp hn

theorem entries_add (h : ht.Chained) (hg : hashtableGet ht key = none) :
    (hashtableAdd true true ht key value).1.entries.Perm (⟨key, value⟩ :: ht.entries) := by
  have hnew : (⟨key, value⟩ : Entry α) ∉ ht.entries := fun hm => h.get_eq_none_iff.mp hg _ hm rfl
  refine (List.perm_ext_iff_of_nodup (h.add true true).entries_nodup
    (List.nodup_cons.mpr ⟨hnew, h.entries_nodup⟩)).mpr fun e => ?_
  rw [h.mem_add hg, List.mem_cons]

theorem entries_del {v : α} (h : ht.Chained) (hg : hashtableGet ht key = some v) :
    ht.entries.Perm (⟨key, v⟩ :: (hashtableDel ht key).1.entries) := by
  have hold : (⟨key, v⟩ : Entry α) ∈ ht.entries := h.get_eq_some_iff.mp hg
  have hgone : (⟨key, v⟩ : Entry α) ∉ (hashtableDel ht key).1.entries := fun hm =>
    ((h.mem_del hg).mp hm).2 rfl
  refine (List.perm_ext_iff_of_nodup h.entries_nodup
    (List.nodup_cons.mpr ⟨hgone, (h.del key).entries_nodup⟩)).mpr fun e => ?_
  rw [List.mem_cons, h.mem_del hg]
  constructor
  · intro he
    by_cases hk : e.key = key
    · subst hk
      left
      have hv := (h.get_eq_some_iff (v := e.value)).mpr he
      rw [hg] at hv
      rw [Option.some.inj hv]
    · exact Or.inr ⟨he, hk⟩
  · intro hh
    rcases hh with rfl | he
    · exact hold
    · exact he.1

theorem adjust_keys (h : ht.Chained) (key : CString) (f : α → α) (i : Fin ht.nbucket) :
    (adjustChain key f (ht.buckets i)).map Entry.key = (ht.buckets i).map Entry.key := by
  rw [adjustChain_eq f (h.nodup i), List.map_map]
  apply List.map_congr_left
  intro e _
  by_cases hk : e.key = key <;> simp [hk]

theorem adjust_chain (h : ht.Chained) (key : CString) (f : α → α) :
    (∀ e ∈ adjustChain key f (ht.buckets (ht.bucketOf key)),
        ht.bucketOf e.key = ht.bucketOf key) ∧
      ((adjustChain key f (ht.buckets (ht.bucketOf key))).map Entry.key).Nodup := by
  have hk := h.adjust_keys key f (ht.bucketOf key)
  refine ⟨fun e he => ?_, hk ▸ h.nodup _⟩
  have hm : e.key ∈ (ht.buckets (ht.bucketOf key)).map Entry.key :=
    hk ▸ List.mem_map_of_mem he
  obtain ⟨e', he', hke⟩ := List.mem_map.mp hm
  rw [← hke]
  exact h.placed _ e' he'

theorem adjust (h : ht.Chained) (key : CString) (f : α → α) :
    (hashtableAdjust ht key f).Chained :=
  h.setChain _ (h.adjust_chain key f).1 (h.adjust_chain key f).2

theorem adjust_entries (h : ht.Chained) (key : CString) (f : α → α) :
    (hashtableAdjust ht key f).entries =
      ht.entries.map (fun e => if e.key = key then ⟨e.key, f e.value⟩ else e) := by
  have hb : (hashtableAdjust ht key f).buckets =
      fun i => (ht.buckets i).map (fun e => if e.key = key then ⟨e.key, f e.value⟩ else e) := by
    change Function.update ht.buckets (ht.bucketOf key)
      (adjustChain key f (ht.buckets (ht.bucketOf key))) = _
    funext i
    by_cases hi : i = ht.bucketOf key
    · subst hi
      rw [Function.update_self, adjustChain_eq f (h.nodup _)]
    · rw [Function.update_of_ne hi]
      refine ((List.map_congr_left fun e he => ?_).trans (List.map_id _)).symm
      have hne : e.key ≠ key := fun hk => hi (by rw [← hk, h.placed i e he])
      simp [hne]
  rw [entries, hb, entries, List.map_flatMap]
  rfl

end Chained

def withoutValues (ht : Hashtable α) (expired : α → Bool) (size : Int) : Hashtable α :=
  { ht with buckets := fun i => (ht.buckets i).filter (fun e => !expired e.value), size := size }

theorem withoutValues_entries (ht : Hashtable α) (expired : α → Bool) (size : Int) :
    (ht.withoutValues expired size).entries = ht.entries.filter (fun e => !expired e.value) := by
  simp [entries, withoutValues, List.filter_flatMap]

theorem sweep_eq {n : Int} (hs : ht.size = int32 n) (expired : α → Bool) :
    hashtableSweep ht expired =
      (ht.withoutValues expired (int32 (n - ht.entries.countP (fun e => expired e.value))),
        int32 (ht.entries.countP (fun e => expired e.value))) := by
  have h0 : int32 0 = 0 := by decide
  have hh := sweepBuckets_eq expired (List.finRange ht.nbucket) (List.nodup_finRange _)
    ht.buckets n 0
  rw [h0, ← hs] at hh
  rw [hashtableSweep]
  rw [hh]
  simp [entries, withoutValues]

theorem Chained.withoutValues (h : ht.Chained) (expired : α → Bool) (size : Int) :
    (ht.withoutValues expired size).Chained where
  placed i e he := h.placed i e (List.mem_of_mem_filter he)
  nodup i := (h.nodup i).sublist (List.filter_sublist.map _)

namespace WellFormed

theorem create {n : Int} {t : Hashtable α} (h : hashtableCreate n = some t) : t.WellFormed := by
  unfold hashtableCreate at h
  split at h
  · cases h
  · cases h
    exact ⟨⟨fun i e he => absurd he List.not_mem_nil, fun i => List.nodup_nil⟩, by simp [entries]; decide⟩

theorem add (h : ht.WellFormed) (m s : Bool) : (hashtableAdd m s ht key value).1.WellFormed := by
  refine ⟨h.chained.add m s, ?_⟩
  cases hg : hashtableGet ht key with
  | some v =>
    rw [add_of_get_some m s hg]
    exact h.size_eq
  | none =>
    by_cases hok : (m && s) = true
    · obtain ⟨rfl, rfl⟩ := Bool.and_eq_true_iff.mp hok
      have hsize : (hashtableAdd true true ht key value).1.size = int32 (ht.size + 1) := by
        rw [add_of_get_none hg]
        rfl
      rw [hsize, (h.chained.entries_add hg).length_eq, h.size_eq]
      simp
    · rw [add_of_alloc_failed (Bool.eq_false_iff.mpr hok)]
      exact h.size_eq

theorem del (h : ht.WellFormed) (key : CString) : (hashtableDel ht key).1.WellFormed := by
  refine ⟨h.chained.del key, ?_⟩
  cases hg : hashtableGet ht key with
  | none =>
    rw [del_of_get_none hg]
    exact h.size_eq
  | some v =>
    have hsize : (hashtableDel ht key).1.size = int32 (ht.size - 1) := by
      rw [h.chained.del_of_get_some hg]
      rfl
    rw [hsize, h.size_eq, (h.chained.entries_del hg).length_eq, int32_int32_sub]
    simp

theorem adjust (h : ht.WellFormed) (key : CString) (f : α → α) :
    (hashtableAdjust ht key f).WellFormed := by
  refine ⟨h.chained.adjust key f, ?_⟩
  rw [h.chained.adjust_entries, List.length_map]
  exact h.size_eq

theorem sweep (h : ht.WellFormed) (expired : α → Bool) :
    (hashtableSweep ht expired).1.WellFormed := by
  rw [sweep_eq h.size_eq]
  refine ⟨h.chained.withoutValues _ _, ?_⟩
  rw [withoutValues_entries]
  refine congrArg int32 ?_
  have hc := List.length_eq_countP_add_countP (fun e : Entry α => expired e.value) (l := ht.entries)
  rw [List.countP_eq_length_filter (p := fun e : Entry α => ¬ expired e.value = true)] at hc
  simp only [Bool.not_eq_true, Bool.decide_eq_false] at hc
  omega

end WellFormed

end Hashtable

end Tcpkit
