import Tcpkit.FiniteMap
import Tcpkit.HashtableInvariant

/-! The finite map a well-formed table stands for. Each operation of the table
is one operation of the map, so nothing above this layer depends on the number
of buckets or on the hash function. -/

namespace Tcpkit

open MachineInt

variable {α : Type}

namespace Hashtable

variable {ht : Hashtable α}

theorem Chained.get_add (h : ht.Chained) (key k : CString) (value : α) :
    hashtableGet (hashtableAdd true true ht key value).1 k =
      if k = key then some ((hashtableGet ht key).getD value) else hashtableGet ht k := by
  cases hg : hashtableGet ht key with
  | some v =>
    rw [add_of_get_some true true hg]
    by_cases hk : k = key
    · simp [hk, hg]
    · simp [hk]
  | none =>
    ext v
    rw [(h.add true true).get_eq_some_iff, h.mem_add hg]
    by_cases hk : k = key
    · subst hk
      have hno : (⟨k, v⟩ : Entry α) ∉ ht.entries := fun hm =>
        h.get_eq_none_iff.mp hg _ hm rfl
      simp [hno, eq_comm]
    · simp [hk, h.get_eq_some_iff]

theorem Chained.get_del (h : ht.Chained) (key k : CString) :
    hashtableGet (hashtableDel ht key).1 k = if k = key then none else hashtableGet ht k := by
  cases hg : hashtableGet ht key with
  | none =>
    rw [del_of_get_none hg]
    by_cases hk : k = key
    · simp [hk, hg]
    · simp [hk]
  | some v =>
    ext w
    rw [(h.del key).get_eq_some_iff, h.mem_del hg]
    by_cases hk : k = key
    · simp [hk]
    · simp [hk, h.get_eq_some_iff]

theorem Chained.get_adjust (h : ht.Chained) (key k : CString) (f : α → α) :
    hashtableGet (hashtableAdjust ht key f) k =
      if k = key then (hashtableGet ht key).map f else hashtableGet ht k := by
  ext v
  rw [(h.adjust key f).get_eq_some_iff, h.adjust_entries, List.mem_map]
  by_cases hk : k = key
  · subst hk
    simp only [if_true, Option.map_eq_some_iff, h.get_eq_some_iff]
    constructor
    · intro hh
      rcases hh with ⟨e, he, hv⟩
      by_cases hek : e.key = k
      · rw [if_pos hek] at hv
        cases hv
        exact ⟨e.value, he, rfl⟩
      · rw [if_neg hek] at hv
        exact absurd (congrArg Entry.key hv) hek
    · intro hh
      rcases hh with ⟨w, hw, rfl⟩
      exact ⟨_, hw, by simp⟩
  · simp only [hk, if_false, h.get_eq_some_iff]
    constructor
    · rintro ⟨e, he, hv⟩
      by_cases hek : e.key = key
      · rw [if_pos hek] at hv
        exact absurd ((congrArg Entry.key hv).symm.trans hek) hk
      · rw [if_neg hek] at hv
        exact hv ▸ he
    · intro hm
      exact ⟨_, hm, by simp [hk]⟩

theorem WellFormed.get_sweep (h : ht.WellFormed) (expired : α → Bool) (k : CString) :
    hashtableGet (hashtableSweep ht expired).1 k =
      (hashtableGet ht k).filter (fun v => !expired v) := by
  ext v
  rw [(h.sweep expired).chained.get_eq_some_iff, sweep_eq h.size_eq, withoutValues_entries,
    List.mem_filter, Option.filter_eq_some_iff, h.chained.get_eq_some_iff]

def toMap (ht : Hashtable α) (h : ht.Chained) : Finmap fun _ : CString => α where
  entries := ↑(ht.entries.map (fun e => (⟨e.key, e.value⟩ : Σ _ : CString, α)))
  nodupKeys := by
    change List.NodupKeys _
    rw [List.NodupKeys, List.keys, List.map_map]
    exact h.keys_nodup

theorem lookup_toMap (h : ht.Chained) (key : CString) :
    (ht.toMap h).lookup key = hashtableGet ht key := by
  ext v
  rw [Finmap.lookup_eq_some_iff, h.get_eq_some_iff]
  change _ ∈ ht.entries.map _ ↔ _
  constructor
  · intro hm
    obtain ⟨e, he, hs⟩ := List.mem_map.mp hm
    cases hs
    exact he
  · intro hm
    exact List.mem_map.mpr ⟨_, hm, rfl⟩

theorem card_toMap (h : ht.Chained) : (ht.toMap h).keys.card = ht.entries.length := by
  rw [← Finmap.card_values, Multiset.card_map]
  simp [toMap]

theorem values_toMap (h : ht.Chained) :
    (ht.toMap h).entries.map Sigma.snd = ↑(ht.entries.map Entry.value) := by
  simp [toMap, Function.comp_def]

theorem stored_subset {allocOk : Int → Bool} {es : List (Entry α)} {v w : Values α}
    (h : valuesLoop allocOk es v = some w) :
    ∀ value ∈ w.stored, value ∈ v.stored ∨ value ∈ es.map Entry.value := by
  induction es generalizing v with
  | nil =>
    cases h
    exact fun value hm => Or.inl hm
  | cons e es ih =>
    have next (u : Values α) (hs : (u.store e.value).bind (valuesLoop allocOk es) = some w)
        (hu : u.stored = v.stored) :
        ∀ value ∈ w.stored, value ∈ v.stored ∨ value ∈ (e :: es).map Entry.value := by
      obtain ⟨u', hstore, hrest⟩ := Option.bind_eq_some_iff.mp hs
      have hu' : u'.stored = v.stored ++ [e.value] := by
        unfold Values.store at hstore
        split at hstore
        · cases hstore
        · split at hstore
          · cases hstore
            rw [← hu]
          · cases hstore
      intro value hm
      rcases ih hrest value hm with hold | hnew
      · rw [hu', List.mem_append, List.mem_singleton] at hold
        exact hold.imp id fun he => by simp [he]
      · exact Or.inr (List.mem_cons_of_mem _ hnew)
    unfold valuesLoop at h
    split at h
    · split at h
      · exact next _ h rfl
      · cases h
        exact fun value hm => Or.inl hm
    · split at h
      · simp only at h
        split at h
        · exact next _ h rfl
        · cases h
          exact fun value hm => Or.inl hm
      · exact next _ h rfl

end Hashtable

/-- A table reached from `hashtable_create` by the operations of `hashtable.c`. -/
structure Table (α : Type) extends Hashtable α where
  wellFormed : toHashtable.WellFormed

namespace Table

def create (n : Nat) (hn : 0 < n) : Table α where
  nbucket := n
  pos := hn
  size := 0
  buckets := fun _ => []
  wellFormed := by
    apply Hashtable.WellFormed.create (n := n)
    simp [hashtableCreate, Nat.ne_of_gt hn]

def get (t : Table α) (key : CString) : Option α := hashtableGet t.toHashtable key

def add (mallocOk strdupOk : Bool) (t : Table α) (key : CString) (value : α) : Table α :=
  ⟨(hashtableAdd mallocOk strdupOk t.toHashtable key value).1, t.wellFormed.add mallocOk strdupOk⟩

def del (t : Table α) (key : CString) : Table α :=
  ⟨(hashtableDel t.toHashtable key).1, t.wellFormed.del key⟩

def adjust (t : Table α) (key : CString) (f : α → α) : Table α :=
  ⟨hashtableAdjust t.toHashtable key f, t.wellFormed.adjust key f⟩

def sweep (t : Table α) (expired : α → Bool) : Table α :=
  ⟨(hashtableSweep t.toHashtable expired).1, t.wellFormed.sweep expired⟩

theorem add_of_alloc_failed {m s : Bool} (hf : (m && s) = false) (t : Table α) (key : CString)
    (value : α) : t.add m s key value = t := by
  cases t with
  | mk ht h => simp only [add, Hashtable.add_of_alloc_failed hf]

def toMap (t : Table α) : Finmap fun _ : CString => α :=
  t.toHashtable.toMap t.wellFormed.chained

@[simp]
theorem lookup_toMap (t : Table α) (key : CString) : t.toMap.lookup key = t.get key :=
  Hashtable.lookup_toMap _ key

theorem size_eq (t : Table α) : t.size = int32 t.toMap.keys.card := by
  rw [t.wellFormed.size_eq, toMap, Hashtable.card_toMap]

theorem toMap_create (n : Nat) (hn : 0 < n) : (create n hn : Table α).toMap = ∅ := by
  apply Finmap.ext_lookup
  intro k
  rw [lookup_toMap, Finmap.lookup_empty]
  rfl

theorem get_add (t : Table α) (key k : CString) (value : α) :
    (t.add true true key value).get k = if k = key then some ((t.get key).getD value) else t.get k :=
  t.wellFormed.chained.get_add key k value

theorem get_del (t : Table α) (key k : CString) :
    (t.del key).get k = if k = key then none else t.get k :=
  t.wellFormed.chained.get_del key k

theorem get_adjust (t : Table α) (key k : CString) (f : α → α) :
    (t.adjust key f).get k = if k = key then (t.get key).map f else t.get k :=
  t.wellFormed.chained.get_adjust key k f

theorem get_sweep (t : Table α) (expired : α → Bool) (k : CString) :
    (t.sweep expired).get k = (t.get k).filter (fun v => !expired v) :=
  t.wellFormed.get_sweep expired k

theorem toMap_add (t : Table α) (key : CString) (value : α) :
    (t.add true true key value).toMap = t.toMap.addNew key value := by
  apply Finmap.ext_lookup
  intro k
  rw [Finmap.lookup_addNew, lookup_toMap, lookup_toMap, lookup_toMap, get_add]

theorem toMap_del (t : Table α) (key : CString) : (t.del key).toMap = t.toMap.erase key := by
  apply Finmap.ext_lookup
  intro k
  rw [lookup_toMap, get_del]
  by_cases hk : k = key
  · subst hk
    simp
  · rw [if_neg hk, Finmap.lookup_erase_ne hk, lookup_toMap]

theorem toMap_adjust (t : Table α) (key : CString) (f : α → α) :
    (t.adjust key f).toMap = t.toMap.adjust key f := by
  apply Finmap.ext_lookup
  intro k
  rw [Finmap.lookup_adjust, lookup_toMap, lookup_toMap, lookup_toMap, get_adjust]

theorem toMap_sweep (t : Table α) (expired : α → Bool) :
    (t.sweep expired).toMap = t.toMap.filterValues (fun v => !expired v) := by
  apply Finmap.ext_lookup
  intro k
  rw [Finmap.lookup_filterValues, lookup_toMap, lookup_toMap, get_sweep]

theorem get_of_mem_values {t : Table α} {allocOk : Int → Bool} {values : List α} {cnt : Int}
    (h : hashtableValues allocOk t.toHashtable = some (values, cnt)) {value : α}
    (hm : value ∈ values) : ∃ key, t.get key = some value := by
  obtain ⟨w, hw, he⟩ := Option.map_eq_some_iff.mp h
  cases he
  rcases Hashtable.stored_subset hw value hm with hnil | hentry
  · cases hnil
  · obtain ⟨e, he, rfl⟩ := List.mem_map.mp hentry
    exact ⟨e.key, t.wellFormed.chained.get_eq_some_iff.mpr he⟩

end Table

end Tcpkit
