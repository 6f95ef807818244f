import Tcpkit.HashtableRuns
import Tcpkit.Ledger
import Tcpkit.Trace

/-! Who owns the values of a hash table. Each release in `hashtable.c` hands a
value to `ht->free`; the record of these calls is kept beside the table. -/

namespace Tcpkit

open scoped List

variable {α : Type}

section Releases

def delFreed (key : CString) : List (Entry α) → List α
  | [] => []
  | e :: rest => if sameKey key e then [e.value] else delFreed key rest

def sweepFreed (expired : α → Bool) : List (Entry α) → List α
  | [] => []
  | e :: rest =>
    if expired e.value then e.value :: sweepFreed expired rest else sweepFreed expired rest

/-- The values `hashtable_del` hands to `ht->free`. -/
def hashtableDelFreed (ht : Hashtable α) (key : CString) : List α :=
  delFreed key (ht.buckets (ht.bucketOf key))

/-- The values `hashtable_sweep` hands to `ht->free`, bucket by bucket. -/
def hashtableSweepFreed (ht : Hashtable α) (expired : α → Bool) : List α :=
  (List.finRange ht.nbucket).flatMap fun i => sweepFreed expired (ht.buckets i)

/-- What `hashtable_destroy` leaves behind is only the record of its releases. -/
def hashtableDestroy (ht : Hashtable α) : List α :=
  (List.finRange ht.nbucket).flatMap fun i => (ht.buckets i).map Entry.value

theorem delFreed_eq (key : CString) (chain : List (Entry α)) :
    delFreed key chain = (getChain key chain).toList := by
  induction chain with
  | nil => rfl
  | cons e rest ih =>
    by_cases h : sameKey key e = true
    · simp [delFreed, getChain, h]
    · simp [delFreed, getChain, h, ih]

theorem sweepFreed_eq (expired : α → Bool) (chain : List (Entry α)) :
    sweepFreed expired chain = (chain.filter (fun e => expired e.value)).map Entry.value := by
  induction chain with
  | nil => rfl
  | cons e rest ih =>
    by_cases h : expired e.value = true
    · simp [sweepFreed, h, ih]
    · simp [sweepFreed, h, ih]

end Releases

namespace Hashtable

variable {ht : Hashtable α} {key : CString} {value : α}

def values (ht : Hashtable α) : List α := ht.entries.map Entry.value

theorem values_create {n : Int} (h : hashtableCreate n = some ht) : ht.values = [] := by
  unfold hashtableCreate at h
  split at h
  · cases h
  · cases h
    simp [values, entries]

theorem destroy_eq (ht : Hashtable α) : hashtableDestroy ht = ht.values := by
  rw [values, entries, List.map_flatMap]
  rfl

theorem Chained.values_add (h : ht.Chained) (hg : hashtableGet ht key = none) :
    (hashtableAdd true true ht key value).1.values.Perm (value :: ht.values) :=
  (h.entries_add hg).map Entry.value

theorem Chained.values_del (h : ht.Chained) (key : CString) :
    ht.values.Perm (hashtableDelFreed ht key ++ (hashtableDel ht key).1.values) := by
  have hfreed : hashtableDelFreed ht key = (hashtableGet ht key).toList := delFreed_eq _ _
  cases hg : hashtableGet ht key with
  | none =>
    rw [hfreed, hg, del_of_get_none hg]
    exact List.Perm.refl _
  | some v =>
    rw [hfreed, hg]
    exact (h.entries_del hg).map Entry.value

theorem WellFormed.values_sweep (h : ht.WellFormed) (expired : α → Bool) :
    ht.values.Perm (hashtableSweepFreed ht expired ++ (hashtableSweep ht expired).1.values) := by
  have hfreed : hashtableSweepFreed ht expired =
      (ht.entries.filter (fun e => expired e.value)).map Entry.value := by
    simp only [hashtableSweepFreed, sweepFreed_eq, entries, List.filter_flatMap, List.map_flatMap]
  have hkept : (hashtableSweep ht expired).1.values =
      (ht.entries.filter (fun e => !expired e.value)).map Entry.value := by
    rw [values, sweep_eq h.size_eq, withoutValues_entries]
  rw [hfreed, hkept, ← List.map_append]
  exact (List.filter_append_perm _ _).symm.map Entry.value

end Hashtable

/-- What one call takes over, refuses, and hands to `ht->free`. -/
def adoptedBy (ht : Hashtable α) : HashtableCall α → List α
  | .add key value => if (hashtableAdd true true ht key value).2.isNone then [value] else []
  | _ => []

def rejectedBy (ht : Hashtable α) : HashtableCall α → List α
  | .add key value => if (hashtableAdd true true ht key value).2.isNone then [] else [value]
  | _ => []

def freedBy (ht : Hashtable α) : HashtableCall α → List α
  | .del key => hashtableDelFreed ht key
  | .sweep expired => hashtableSweepFreed ht expired
  | _ => []

def offered : HashtableCall α → List α
  | .add _ value => [value]
  | _ => []

/-- A table in use, with the values it took over and released, and those it refused. -/
structure Tracked (α : Type) where
  table : Hashtable α
  ledger : Ledger α
  rejected : List α

namespace Tracked

def start (ht : Hashtable α) : Tracked α := ⟨ht, Ledger.empty, []⟩

def call (s : Tracked α) (c : HashtableCall α) : Tracked α where
  table := (hashtableCall s.table c).1
  ledger := ⟨s.ledger.taken ++ adoptedBy s.table c, s.ledger.freed ++ freedBy s.table c⟩
  rejected := s.rejected ++ rejectedBy s.table c

def runs (ht : Hashtable α) (calls : List (HashtableCall α)) : Trace (call (α := α)) :=
  Trace.ofList call (start ht) calls

def after (ht : Hashtable α) (calls : List (HashtableCall α)) (k : Nat) : Tracked α :=
  (runs ht calls).state k

def destroy (s : Tracked α) : List α := s.ledger.freed ++ hashtableDestroy s.table

section

variable {s : Tracked α} {c : HashtableCall α}

theorem adopted_append_rejected (ht : Hashtable α) (c : HashtableCall α) :
    adoptedBy ht c ++ rejectedBy ht c = offered c := by
  cases c with
  | add key value =>
    cases h : (hashtableAdd true true ht key value).2 <;> simp [adoptedBy, rejectedBy, offered, h]
  | get key => rfl
  | del key => rfl
  | sweep expired => rfl

theorem wellFormed_call (hw : s.table.WellFormed) : (s.call c).table.WellFormed := by
  cases c with
  | add key value => exact hw.add true true
  | get key => exact hw
  | del key => exact hw.del key
  | sweep expired => exact hw.sweep expired

theorem accounts_call (hw : s.table.WellFormed) (ha : s.ledger.Accounts s.table.values [])
    (hnew : ∀ value ∈ offered c, value ∉ s.ledger.taken) :
    (s.call c).ledger.Accounts (s.call c).table.values [] := by
  cases c with
  | add key value =>
    have hfresh : value ∉ s.ledger.taken := hnew value (List.mem_singleton_self value)
    cases hg : hashtableGet s.table key with
    | none =>
      have hadopted : adoptedBy s.table (.add key value) = [value] := by
        simp [adoptedBy, Hashtable.add_of_get_none hg]
      simp only [call, hadopted, freedBy, List.append_nil]
      exact (ha.take hfresh).congr (hw.chained.values_add hg).symm
    | some v =>
      have hadopted : adoptedBy s.table (.add key value) = [] := by
        simp [adoptedBy, Hashtable.add_of_get_some true true hg]
      have hsame : (hashtableCall s.table (.add key value)).1 = s.table := by
        simp [hashtableCall, Hashtable.add_of_get_some true true hg]
      simp only [call, hadopted, freedBy, List.append_nil, hsame]
      exact ha
  | get key =>
    simp only [call, adoptedBy, freedBy, List.append_nil]
    exact ha
  | del key =>
    simp only [call, adoptedBy, freedBy, List.append_nil]
    exact ha.free (hw.chained.values_del key)
  | sweep expired =>
    simp only [call, adoptedBy, freedBy, List.append_nil]
    exact ha.free (hw.values_sweep expired)

end

/-- What a run keeps: the values offered so far were taken over or refused, and those
taken over are in the table or in the record. -/
structure Owning (s : Tracked α) (offers : List α) : Prop where
  wellFormed : s.table.WellFormed
  offers : (s.ledger.taken ++ s.rejected).Perm offers
  accounts : s.ledger.Accounts s.table.values []

theorem Owning.call {s : Tracked α} {offers : List α} (h : s.Owning offers) {c : HashtableCall α}
    (hn : (offers ++ offered c).Nodup) : (s.call c).Owning (offers ++ offered c) := by
  refine ⟨wellFormed_call h.wellFormed, ?_, accounts_call h.wellFormed h.accounts ?_⟩
  · rw [← adopted_append_rejected s.table c]
    calc s.ledger.taken ++ adoptedBy s.table c ++ (s.rejected ++ rejectedBy s.table c)
      _ ~ s.ledger.taken ++ (s.rejected ++ (adoptedBy s.table c ++ rejectedBy s.table c)) := by
        rw [List.append_assoc]
        exact (List.perm_append_comm_assoc _ _ _).append_left _
      _ = s.ledger.taken ++ s.rejected ++ (adoptedBy s.table c ++ rejectedBy s.table c) :=
        (List.append_assoc ..).symm
      _ ~ offers ++ (adoptedBy s.table c ++ rejectedBy s.table c) := h.offers.append_right _
  · intro value hv ht
    have hold : value ∈ offers := h.offers.mem_iff.mp (List.mem_append_left _ ht)
    exact (List.nodup_append.mp hn).2.2 value hold value hv rfl

theorem Owning.after {n : Int} {ht : Hashtable α} (hc : hashtableCreate n = some ht)
    {calls : List (HashtableCall α)} (hn : (calls.flatMap offered).Nodup) {k : Nat}
    (hk : k ≤ calls.length) : (after ht calls k).Owning ((calls.take k).flatMap offered) := by
  refine (Tracked.runs ht calls).invariant
    (I := fun k s => s.Owning ((calls.take k).flatMap offered)) ?_ (fun j h => ?_) k hk
  · have hvalues := Hashtable.values_create hc
    refine ⟨Hashtable.WellFormed.create hc, List.Perm.nil, ?_⟩
    change Ledger.empty.Accounts ht.values []
    rw [hvalues]
    exact Ledger.Accounts.empty
  · have htake : (calls.take (j + 1)).flatMap offered =
        (calls.take j).flatMap offered ++ offered ((Tracked.runs ht calls).input j) := by
      rw [List.take_add_one, List.getElem?_eq_getElem j.isLt, List.flatMap_append]
      rw [Option.toList_some, List.flatMap_singleton]
      rfl
    have hsub : ((calls.take (j + 1)).flatMap offered).Nodup :=
      hn.sublist (List.Sublist.flatMap (List.take_sublist _ _) offered)
    rw [htake] at hsub ⊢
    exact h.call hsub

theorem Owning.get_notMem_freed {s : Tracked α} {offers : List α} (h : s.Owning offers)
    {key : CString} {v : α} (hg : hashtableGet s.table key = some v) : v ∉ s.ledger.freed := by
  classical
  exact h.accounts.notMem_freed
    (List.mem_map.mpr ⟨⟨key, v⟩, h.wellFormed.chained.get_eq_some_iff.mp hg, rfl⟩)

theorem Owning.values_notMem_freed {s : Tracked α} {offers : List α} (h : s.Owning offers)
    {allocOk : Int → Bool} {values : List α} {cnt : Int}
    (hv : hashtableValues allocOk s.table = some (values, cnt)) {v : α} (hm : v ∈ values) :
    v ∉ s.ledger.freed := by
  obtain ⟨key, hg⟩ := Table.get_of_mem_values (t := ⟨s.table, h.wellFormed⟩) hv hm
  exact h.get_notMem_freed hg

theorem Owning.destroy [DecidableEq α] {s : Tracked α} {offers : List α} (h : s.Owning offers)
    (hn : offers.Nodup) :
    (∀ v ∈ s.ledger.taken, s.destroy.count v = 1) ∧ ∀ v ∈ s.rejected, v ∉ s.destroy := by
  have hend : (s.ledger.free (hashtableDestroy s.table)).Accounts [] [] := by
    apply h.accounts.free
    rw [Hashtable.destroy_eq, List.append_nil]
  refine ⟨fun v hv => hend.count_eq_one hv, fun v hv hf => ?_⟩
  have htaken : v ∈ s.ledger.taken := hend.perm.mem_iff.mpr (List.mem_append_left _ hf)
  exact (List.nodup_append.mp (h.offers.nodup_iff.mpr hn)).2.2 v htaken v hv rfl

end Tracked

/-- The ownership contract of a table, over a run of calls that ends in its destruction. -/
structure FreesOnce [DecidableEq α] (ht : Hashtable α) (calls : List (HashtableCall α)) : Prop where
  adopted : ∀ v ∈ (Tracked.after ht calls calls.length).ledger.taken,
    (Tracked.after ht calls calls.length).destroy.count v = 1
  rejected : ∀ v ∈ (Tracked.after ht calls calls.length).rejected,
    v ∉ (Tracked.after ht calls calls.length).destroy
  got : ∀ k ≤ calls.length, ∀ key v, hashtableGet (Tracked.after ht calls k).table key = some v →
    v ∉ (Tracked.after ht calls k).ledger.freed
  listed : ∀ k ≤ calls.length, ∀ allocOk values cnt,
    hashtableValues allocOk (Tracked.after ht calls k).table = some (values, cnt) →
      ∀ v ∈ values, v ∉ (Tracked.after ht calls k).ledger.freed

/-- Values are released once each: those taken over exactly once by the end, those refused
never, and no call returns one that was released. -/
theorem hashtable_frees_once [DecidableEq α] {nbucket : Int} (hpos : 0 < nbucket)
    {calls : List (HashtableCall α)} (hdistinct : (calls.flatMap offered).Nodup) :
    ∃ ht, hashtableCreate nbucket = some ht ∧ FreesOnce ht calls := by
  have hcreate : (hashtableCreate nbucket : Option (Hashtable α)).isSome := by
    simp [hashtableCreate, hpos]
  obtain ⟨ht, hc⟩ := Option.isSome_iff_exists.mp hcreate
  have hrun (k : Nat) (hk : k ≤ calls.length) := Tracked.Owning.after hc hdistinct hk
  have hend := hrun calls.length le_rfl
  rw [List.take_length] at hend
  obtain ⟨hadopted, hrejected⟩ := hend.destroy hdistinct
  refine ⟨ht, hc, hadopted, hrejected, fun k hk key v hg => (hrun k hk).get_notMem_freed hg, ?_⟩
  intro k hk allocOk values cnt hv v hm
  exact (hrun k hk).values_notMem_freed hv hm

/-- One chain in which a value is refused, one is deleted and one is left to the end. -/
def chainCalls : List (HashtableCall Nat) :=
  [.add (CString.literal "a") 1, .add (CString.literal "b") 2, .add (CString.literal "a") 3,
    .del (CString.literal "a")]

theorem hashtable_frees_once_chain : (0 : Int) < 1 ∧ (chainCalls.flatMap offered).Nodup ∧
    ∃ ht, hashtableCreate 1 = some ht ∧ FreesOnce ht chainCalls :=
  ⟨by decide, by decide, hashtable_frees_once (by decide) (by decide)⟩

end Tcpkit
