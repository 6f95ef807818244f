import Mathlib.Order.Lattice.Nat
import Tcpkit.NodeTable

/-! Whole runs of calls on the table of nodes, whatever the allocator answers and whichever freed
addresses it hands out again, against the same calls on the table of lists. -/

namespace Tcpkit

open MachineInt NodeStore

variable {ν α : Type} [DecidableEq ν]

/-- `malloc` is none where the allocation of the node fails. -/
inductive NodeCall (ν α : Type) where
  | add (malloc : Option (Malloc ν)) (strdupOk : Bool) (key : CString) (value : α)
  | get (key : CString)
  | del (key : CString)
  | sweep (expired : α → Bool)

def nodeCall (t : NodeTable ν α) : NodeCall ν α → Option (NodeTable ν α × HashtableReply α)
  | .add malloc strdupOk key value => (t.add malloc strdupOk key value).map (Prod.map id .value)
  | .get key => (t.get key).map fun v => (t, .value v)
  | .del key => (t.del key).map (Prod.map id .count)
  | .sweep expired => (t.sweep expired).map (Prod.map id .count)

def plainCall (ht : Hashtable α) : NodeCall ν α → Hashtable α × HashtableReply α
  | .add malloc strdupOk key value =>
    Prod.map id .value (hashtableAdd malloc.isSome strdupOk ht key value)
  | .get key => (ht, .value (hashtableGet ht key))
  | .del key => Prod.map id .count (hashtableDel ht key)
  | .sweep expired => Prod.map id .count (hashtableSweep ht expired)

def nodeRun (t : NodeTable ν α) : List (NodeCall ν α) → Option (NodeTable ν α × List (HashtableReply α))
  | [] => some (t, [])
  | c :: cs => do
    let (t, reply) ← nodeCall t c
    let (t, replies) ← nodeRun t cs
    return (t, reply :: replies)

def plainRun (ht : Hashtable α) : List (NodeCall ν α) → Hashtable α × List (HashtableReply α)
  | [] => (ht, [])
  | c :: cs =>
    let r := plainCall ht c
    let rest := plainRun r.1 cs
    (rest.1, r.2 :: rest.2)

omit [DecidableEq ν] in
theorem NodeTable.plain_update (t : NodeTable ν α) (chains : Fin t.nbucket → List (ν × Entry α))
    (i : Fin t.nbucket) (xs : List (ν × Entry α)) (size : Int) (heads : Fin t.nbucket → Option ν)
    (store : NodeStore ν (Entry α)) :
    (⟨t.nbucket, t.pos, size, heads, store⟩ : NodeTable ν α).plain (Function.update chains i xs) =
      (t.plain chains).setChain i (xs.map Prod.snd) size :=
  congrArg (Hashtable.mk t.nbucket t.pos size) (Function.comp_update (List.map Prod.snd) chains i xs)

namespace NodeTable.Holds

variable {t : NodeTable ν α} {ht : Hashtable α}

theorem create {nbucket : Int} (hn : 0 < nbucket) : ∃ (t : NodeTable ν α) (ht : Hashtable α),
    NodeTable.create true true nbucket = some t ∧ hashtableCreate nbucket = some ht ∧ t.Holds ht := by
  refine ⟨⟨nbucket.toNat, by omega, 0, fun _ => none, ⟨∅, ∅⟩⟩, ⟨nbucket.toNat, by omega, 0, fun _ => []⟩,
    ?_, ?_, fun _ => [], Partitioned.empty, rfl⟩
  · simp [NodeTable.create, hn]
  · simp [hashtableCreate, hn]

theorem get (h : t.Holds ht) (key : CString) : t.get key = some (hashtableGet ht key) := by
  obtain ⟨chains, hp, rfl⟩ := h
  exact getLoop_spec key (hp.segment _) (hp.segment _).length_le

/-- What `hashtable_add` does once the search has ended. -/
theorem add (h : t.Holds ht) (malloc : Option (Malloc ν)) (strdupOk : Bool) (key : CString) (value : α) :
    ∃ t', t.add malloc strdupOk key value = some (t', (hashtableAdd malloc.isSome strdupOk ht key value).2) ∧
      t'.Holds (hashtableAdd malloc.isSome strdupOk ht key value).1 := by
  have hsearch := h.get key
  rw [NodeTable.get] at hsearch
  obtain ⟨chains, hp, rfl⟩ := h
  have hbucket : (t.plain chains).bucketOf key = t.bucketOf key := rfl
  cases hget : hashtableGet (t.plain chains) key with
  | some v =>
    rw [Hashtable.add_of_get_some _ _ hget]
    exact ⟨t, by simp [NodeTable.add, hsearch, hget], chains, hp, rfl⟩
  | none =>
    rw [hashtableGet, hbucket] at hget
    cases malloc with
    | none =>
      refine ⟨t, ?_, chains, hp, (Hashtable.add_of_alloc_failed rfl).symm⟩
      simp [NodeTable.add, hsearch, hashtableAdd, hashtableGet, hbucket, hget]
    | some malloc =>
      have hfresh := malloc.fresh_notMem t.store.live
      generalize he : malloc.fresh t.store.live = e at hfresh
      cases strdupOk with
      | true =>
        have hpush := hp.push (t.bucketOf key) hfresh ⟨key, value⟩
        refine ⟨⟨t.nbucket, t.pos, int32 (t.size + 1), Function.update t.buckets (t.bucketOf key) (some e),
          t.store.alloc e (⟨key, value⟩, t.buckets (t.bucketOf key))⟩, ?_, _, hpush, ?_⟩
        · simp [NodeTable.add, hsearch, hashtableAdd, hashtableGet, hbucket, hget, he]
        · simp only [hashtableAdd, hbucket, hget, Option.isSome_some, Bool.and_self, if_true]
          exact t.plain_update _ _ _ _ _ _
      | false =>
        obtain ⟨u, hfree, hfreed, hother⟩ :=
          free_of_load (load_alloc_self t.store e (⟨key, value⟩, t.buckets (t.bucketOf key)))
        refine ⟨{ t with store := u }, ?_, chains, hp.congr (fun n hn => ?_) fun n hn => ?_,
          (Hashtable.add_of_alloc_failed rfl).symm⟩
        · simp [NodeTable.add, hsearch, hashtableAdd, hashtableGet, hbucket, hget, he, hfree]
        · have hne : n ≠ e := by
            rintro rfl
            exact hfresh hn
          rw [hother n hne, load_alloc_of_ne hne]
        · by_cases hne : n = e
          · exact notMem_live_of_freed (by rw [hfreed, hne]; exact Finset.mem_insert_self _ _)
          · rwa [mem_live_congr ((hother n hne).trans (load_alloc_of_ne hne _))]

theorem del (h : t.Holds ht) (key : CString) :
    ∃ t', t.del key = some (t', (hashtableDel ht key).2) ∧ t'.Holds (hashtableDel ht key).1 := by
  obtain ⟨chains, hp, rfl⟩ := h
  have hbucket : (t.plain chains).bucketOf key = t.bucketOf key := rfl
  have hsegment := hp.segment (t.bucketOf key)
  have hchain : (t.plain chains).buckets (t.bucketOf key) = (chains (t.bucketOf key)).map Prod.snd := rfl
  cases hfind : (chains (t.bucketOf key)).find? fun x => x.2.key = key with
  | none =>
    have hno : ∀ x ∈ chains (t.bucketOf key), x.2.key ≠ key := by simpa using hfind
    have hdel : delChain key ((chains (t.bucketOf key)).map Prod.snd) = none := by
      refine delChain_none key fun e he => ?_
      obtain ⟨x, hx, rfl⟩ := List.mem_map.mp he
      exact hno x hx
    refine ⟨t, ?_, chains, hp, ?_⟩
    · simp [NodeTable.del, delLoop_none key (c := ⟨_, t.store, t.size⟩) hsegment hsegment.length_le hno,
        hashtableDel, hbucket, hchain, hdel]
    · simp [hashtableDel, hbucket, hchain, hdel]
  | some x =>
    obtain ⟨hkey, before, after, hsplit, hbefore⟩ := List.find?_eq_some_iff_append.mp hfind
    have hkey : x.2.key = key := by simpa using hkey
    have hbefore : ∀ y ∈ before, y.2.key ≠ key := by simpa using hbefore
    have hdel : delChain key ((chains (t.bucketOf key)).map Prod.snd) =
        some ((before ++ after).map Prod.snd) := by
      rw [hsplit, List.map_append, List.map_cons, List.map_append]
      refine delChain_some key (fun e he => ?_) hkey
      obtain ⟨y, hy, rfl⟩ := List.mem_map.mp he
      exact hbefore y hy
    have hall := hsegment
    rw [hsplit] at hall
    have hstart : (⟨t.buckets (t.bucketOf key), t.store, t.size⟩ : NodeChain ν α).store.Segment
        (t.buckets (t.bucketOf key)) [] (t.buckets (t.bucketOf key)) := rfl
    obtain ⟨c, hloop, hholds, hfreed, hother, hsize⟩ :=
      delLoop_some key hstart hall hall.nodup hall.length_le hbefore hkey
    change delLoop key t.store.live.card none (t.buckets (t.bucketOf key)) _ = _ at hloop
    rw [List.nil_append] at hholds hother
    have hnext := hp.replace (t.bucketOf key) hholds (fun n hn _ => hother n (hsplit ▸ hn))
      (fun n hn => Or.inl ?_) fun n hn hno => notMem_live_of_freed ?_
    · refine ⟨⟨t.nbucket, t.pos, c.size, Function.update t.buckets (t.bucketOf key) c.head, c.store⟩, ?_, _,
        hnext, ?_⟩
      · simp [NodeTable.del, hloop, hashtableDel, hbucket, hchain, hdel]
      · simp only [hashtableDel, hbucket, hchain, hdel]
        rw [hsize]
        exact t.plain_update _ _ _ _ _ _
    · rw [hsplit]
      simp only [List.map_append, List.map_cons, List.mem_append, List.mem_cons] at hn ⊢
      tauto
    · rw [hfreed]
      rw [hsplit] at hn
      simp only [List.map_append, List.map_cons, List.mem_append, List.mem_cons] at hn hno
      have hx : n = x.1 := by tauto
      exact hx ▸ Finset.mem_insert_self _ _

theorem sweep (h : t.Holds ht) (expired : α → Bool) :
    ∃ t', t.sweep expired = some (t', (hashtableSweep ht expired).2) ∧
      t'.Holds (hashtableSweep ht expired).1 := by
  obtain ⟨chains, hp, rfl⟩ := h
  obtain ⟨heads, store, chains', hp', hloop, hchains⟩ :=
    sweepHeads_spec expired (List.finRange t.nbucket) t.size 0 hp
  refine ⟨⟨t.nbucket, t.pos, (hashtableSweep (t.plain chains) expired).1.size, heads, store⟩, ?_, chains',
    hp', ?_⟩
  · rw [NodeTable.sweep, hloop]
    rfl
  · exact congrArg (Hashtable.mk t.nbucket t.pos (hashtableSweep (t.plain chains) expired).1.size)
      hchains.symm

theorem call (h : t.Holds ht) (c : NodeCall ν α) :
    ∃ t', nodeCall t c = some (t', (plainCall ht c).2) ∧ t'.Holds (plainCall ht c).1 := by
  cases c with
  | add malloc strdupOk key value =>
    obtain ⟨t', hadd, ht'⟩ := h.add malloc strdupOk key value
    exact ⟨t', by rw [nodeCall, hadd]; rfl, ht'⟩
  | get key => exact ⟨t, by rw [nodeCall, h.get]; rfl, h⟩
  | del key =>
    obtain ⟨t', hdel, ht'⟩ := h.del key
    exact ⟨t', by rw [nodeCall, hdel]; rfl, ht'⟩
  | sweep expired =>
    obtain ⟨t', hsweep, ht'⟩ := h.sweep expired
    exact ⟨t', by rw [nodeCall, hsweep]; rfl, ht'⟩

theorem run (h : t.Holds ht) (calls : List (NodeCall ν α)) :
    ∃ t', nodeRun t calls = some (t', (plainRun ht calls).2) ∧ t'.Holds (plainRun ht calls).1 := by
  induction calls generalizing t ht with
  | nil => exact ⟨t, rfl, h⟩
  | cons c cs ih =>
    obtain ⟨u, hcall, hu⟩ := h.call c
    obtain ⟨t', hrun, ht'⟩ := ih hu
    exact ⟨t', by simp [nodeRun, plainRun, hcall, hrun], ht'⟩

theorem values (h : t.Holds ht) (allocOk : Int → Bool) : t.values allocOk = hashtableValues allocOk ht := by
  obtain ⟨chains, hp, rfl⟩ := h
  rw [NodeTable.values, valuesHeads_spec allocOk _ _ hp]
  rfl

theorem destroy (h : t.Holds ht) :
    ∃ store, t.destroy = some (store, hashtableDestroy ht) ∧ store.live = ∅ := by
  obtain ⟨chains, hp, rfl⟩ := h
  obtain ⟨store, heads, hend, hloop⟩ := destroyHeads_spec _ (List.nodup_finRange t.nbucket) hp
  simp only [List.mem_finRange, if_true] at hend
  refine ⟨store, ?_, hend.live_eq_empty⟩
  rw [NodeTable.destroy, hloop]
  simp [hashtableDestroy, NodeTable.plain, Function.comp_def]

theorem card_live (h : t.Holds ht) : t.store.live.card = ht.entries.length := by
  obtain ⟨chains, hp, rfl⟩ := h
  rw [hp.card_live _ (List.nodup_finRange _) List.mem_finRange, Hashtable.entries]
  simp [NodeTable.plain, List.length_flatMap]

end NodeTable.Holds

omit [DecidableEq ν] in
theorem wellFormed_plainRun {ht : Hashtable α} (h : ht.WellFormed) (calls : List (NodeCall ν α)) :
    (plainRun ht calls).1.WellFormed := by
  induction calls generalizing ht with
  | nil => exact h
  | cons c cs ih =>
    refine ih ?_
    cases c with
    | add malloc strdupOk key value => exact h.add _ _
    | get key => exact h
    | del key => exact h.del key
    | sweep expired => exact h.sweep expired

/-- Whatever the allocator answers in a run of calls, and whichever freed addresses it hands out
again, no node is read, written or freed unless it is in use, every loop ends, and the answers are
those of the table of lists. The nodes in use are as many as the entries, and the counter of the
table tells how many, up to the width of an `int`. The table can be listed and destroyed at any
point: destroying it calls `ht->free` once for each entry left and frees every node that is left. -/
theorem nodeTable_runs (nbucket : Int) (hn : 0 < nbucket) (calls : List (NodeCall ν α)) :
    ∃ (t₀ : NodeTable ν α) (ht₀ : Hashtable α) (t : NodeTable ν α),
      NodeTable.create true true nbucket = some t₀ ∧ hashtableCreate nbucket = some ht₀ ∧
      nodeRun t₀ calls = some (t, (plainRun ht₀ calls).2) ∧ t.Holds (plainRun ht₀ calls).1 ∧
      t.store.live.card = (plainRun ht₀ calls).1.entries.length ∧ t.size = int32 t.store.live.card ∧
      (∀ allocOk, t.values allocOk = hashtableValues allocOk (plainRun ht₀ calls).1) ∧
      ∃ store, t.destroy = some (store, hashtableDestroy (plainRun ht₀ calls).1) ∧ store.live = ∅ := by
  obtain ⟨t₀, ht₀, hnode, hplain, h₀⟩ := NodeTable.Holds.create (ν := ν) (α := α) hn
  obtain ⟨t, hrun, h⟩ := h₀.run calls
  have hsize := (wellFormed_plainRun (Hashtable.WellFormed.create hplain) calls).size_eq
  refine ⟨t₀, ht₀, t, hnode, hplain, hrun, h, h.card_live, ?_, h.values, h.destroy⟩
  rw [h.card_live, ← hsize]
  obtain ⟨chains, -, hchains⟩ := h
  exact congrArg Hashtable.size hchains

theorem sup_add_one_notMem (live : Finset Nat) : live.sup id + 1 ∉ live := by
  intro hmem
  have hle := Finset.le_sup (f := id) hmem
  simp only [id_eq] at hle
  omega

def nextAbove : Malloc Nat := ⟨fun live => live.sup id + 1, sup_add_one_notMem⟩

/-- The node of the first key is freed and handed out again for the second one. -/
theorem nodeTable_runs_reuse : ∃ t₀ t : NodeTable Nat Nat, NodeTable.create true true 1 = some t₀ ∧
    nodeRun t₀ [.add (some nextAbove) true (CString.decimal 7) 1, .del (CString.decimal 7),
      .add (some nextAbove) true (CString.decimal 8) 2, .add none true (CString.decimal 9) 3,
      .get (CString.decimal 8), .get (CString.decimal 9)] =
      some (t, [.value none, .count 1, .value none, .value none, .value (some 2), .value none]) ∧
    t.store.live.card = 1 := by
  obtain ⟨t₀, ht₀, t, hnode, hplain, hrun, -, hcard, -⟩ := nodeTable_runs (ν := Nat) (α := Nat) 1 (by decide)
    [.add (some nextAbove) true (CString.decimal 7) 1, .del (CString.decimal 7),
      .add (some nextAbove) true (CString.decimal 8) 2, .add none true (CString.decimal 9) 3,
      .get (CString.decimal 8), .get (CString.decimal 9)]
  cases hplain
  exact ⟨t₀, t, hnode, hrun.trans rfl, hcard.trans rfl⟩

end Tcpkit
