import Tcpkit.Heap
import Tcpkit.Refinement

/-! Forgetting the blocks turns the sniffer with a heap into the plain one. The
operations of a table do not look into its values except through the functions
they are given, so they commute with a change of values. -/

namespace Tcpkit

open MachineInt

variable {α β : Type} (f : α → β)

def Entry.mapValue (e : Entry α) : Entry β := ⟨e.key, f e.value⟩

@[simp]
theorem sameKey_mapValue (key : CString) (e : Entry α) :
    sameKey key (e.mapValue f) = sameKey key e := rfl

theorem getChain_map (key : CString) (chain : List (Entry α)) :
    getChain key (chain.map (Entry.mapValue f)) = (getChain key chain).map f := by
  induction chain with
  | nil => rfl
  | cons e rest ih =>
    simp only [List.map_cons, getChain, sameKey_mapValue, ih]
    split <;> rfl

theorem delChain_map (key : CString) (chain : List (Entry α)) :
    delChain key (chain.map (Entry.mapValue f)) =
      (delChain key chain).map (List.map (Entry.mapValue f)) := by
  induction chain with
  | nil => rfl
  | cons e rest ih =>
    simp only [List.map_cons, delChain, sameKey_mapValue, ih]
    split
    · rfl
    · simp [Function.comp_def]

theorem adjustChain_map {u : α → α} {v : β → β} (huv : ∀ x, f (u x) = v (f x)) (key : CString)
    (chain : List (Entry α)) : adjustChain key v (chain.map (Entry.mapValue f)) =
      (adjustChain key u chain).map (Entry.mapValue f) := by
  induction chain with
  | nil => rfl
  | cons e rest ih =>
    simp only [List.map_cons, adjustChain, sameKey_mapValue, ih]
    split
    · simp [Entry.mapValue, huv]
    · rfl

theorem sweepChain_map (expired : β → Bool) (chain : List (Entry α)) (a b : Int) :
    sweepChain expired (chain.map (Entry.mapValue f)) a b =
      ((sweepChain (expired ∘ f) chain a b).1.map (Entry.mapValue f),
        (sweepChain (expired ∘ f) chain a b).2) := by
  induction chain generalizing a b with
  | nil => rfl
  | cons e rest ih =>
    have hvalue : expired (e.mapValue f).value = (expired ∘ f) e.value := rfl
    simp only [List.map_cons, sweepChain, hvalue, ih]
    split <;> rfl

theorem update_map {n : Nat} (buckets : Fin n → List (Entry α)) (i : Fin n)
    (chain : List (Entry α)) :
    Function.update (fun j => (buckets j).map (Entry.mapValue f)) i (chain.map (Entry.mapValue f)) =
      fun j => (Function.update buckets i chain j).map (Entry.mapValue f) := by
  funext j
  by_cases hj : j = i
  · subst hj
    simp
  · simp [hj]

theorem sweepBuckets_map (expired : β → Bool) {n : Nat} (is : List (Fin n))
    (buckets : Fin n → List (Entry α)) (a b : Int) :
    sweepBuckets expired is (fun i => (buckets i).map (Entry.mapValue f)) a b =
      (fun i => ((sweepBuckets (expired ∘ f) is buckets a b).1 i).map (Entry.mapValue f),
        (sweepBuckets (expired ∘ f) is buckets a b).2) := by
  induction is generalizing buckets a b with
  | nil => rfl
  | cons i is ih =>
    simp only [sweepBuckets, sweepChain_map, update_map]
    exact ih _ _ _

namespace Hashtable

def mapValues (ht : Hashtable α) : Hashtable β :=
  { ht with buckets := fun i => (ht.buckets i).map (Entry.mapValue f) }

variable (ht : Hashtable α)

theorem mapValues_setChain (b : Fin ht.nbucket) (chain : List (Entry α)) (n : Int) :
    (ht.mapValues f).setChain b (chain.map (Entry.mapValue f)) n =
      (ht.setChain b chain n).mapValues f :=
  congrArg (mk ht.nbucket ht.pos n) (update_map f ht.buckets b chain)

theorem get_mapValues (key : CString) :
    hashtableGet (ht.mapValues f) key = (hashtableGet ht key).map f :=
  getChain_map f key _

theorem add_mapValues (m s : Bool) (key : CString) (value : α) :
    (hashtableAdd m s (ht.mapValues f) key (f value)).1 =
      (hashtableAdd m s ht key value).1.mapValues f := by
  have hget := ht.get_mapValues f key
  cases hg : hashtableGet ht key with
  | some v =>
    rw [hg] at hget
    rw [add_of_get_some m s hget, add_of_get_some m s hg]
  | none =>
    rw [hg] at hget
    cases hok : m && s with
    | true =>
      obtain ⟨rfl, rfl⟩ := Bool.and_eq_true_iff.mp hok
      rw [add_of_get_none hget, add_of_get_none hg]
      exact ht.mapValues_setChain f _ (⟨key, value⟩ :: _) _
    | false => rw [add_of_alloc_failed hok, add_of_alloc_failed hok]

theorem del_mapValues (key : CString) :
    (hashtableDel (ht.mapValues f) key).1 = (hashtableDel ht key).1.mapValues f := by
  have hchain : delChain key ((ht.mapValues f).buckets ((ht.mapValues f).bucketOf key)) =
      (delChain key (ht.buckets (ht.bucketOf key))).map (List.map (Entry.mapValue f)) :=
    delChain_map f key _
  simp only [hashtableDel, hchain]
  cases delChain key (ht.buckets (ht.bucketOf key)) with
  | none => rfl
  | some chain => exact ht.mapValues_setChain f _ chain _

theorem adjust_mapValues {u : α → α} {v : β → β} (huv : ∀ x, f (u x) = v (f x)) (key : CString) :
    hashtableAdjust (ht.mapValues f) key v = (hashtableAdjust ht key u).mapValues f := by
  have hchain : adjustChain key v ((ht.mapValues f).buckets ((ht.mapValues f).bucketOf key)) =
      (adjustChain key u (ht.buckets (ht.bucketOf key))).map (Entry.mapValue f) :=
    adjustChain_map f huv key _
  simp only [hashtableAdjust, hchain]
  exact ht.mapValues_setChain f _ _ _

theorem sweep_mapValues (expired : β → Bool) :
    (hashtableSweep (ht.mapValues f) expired).1 =
      (hashtableSweep ht (expired ∘ f)).1.mapValues f := by
  have hbuckets : sweepBuckets expired (List.finRange ht.nbucket) (ht.mapValues f).buckets
      ht.size 0 = _ := sweepBuckets_map f expired _ ht.buckets ht.size 0
  simp only [hashtableSweep, mapValues] at hbuckets ⊢
  rw [hbuckets]

theorem entries_mapValues : (ht.mapValues f).entries = ht.entries.map (Entry.mapValue f) := by
  rw [entries, entries, List.map_flatMap]
  rfl

variable {ht}

theorem WellFormed.mapValues (h : ht.WellFormed) : (ht.mapValues f).WellFormed where
  chained := by
    refine ⟨fun i e he => ?_, fun i => ?_⟩
    · obtain ⟨e', he', rfl⟩ := List.mem_map.mp he
      exact h.chained.placed i e' he'
    · change (((ht.buckets i).map (Entry.mapValue f)).map Entry.key).Nodup
      rw [List.map_map]
      exact h.chained.nodup i
  size_eq := by
    rw [entries_mapValues, List.length_map]
    exact h.size_eq

end Hashtable

namespace Table

theorem eq_of_toHashtable {t u : Table α} (h : t.toHashtable = u.toHashtable) : t = u := by
  cases t
  cases u
  cases h
  rfl

def mapValues (t : Table α) : Table β := ⟨t.toHashtable.mapValues f, t.wellFormed.mapValues f⟩

variable (t : Table α)

@[simp]
theorem get_mapValues (key : CString) : (t.mapValues f).get key = (t.get key).map f :=
  t.toHashtable.get_mapValues f key

theorem mapValues_add (m s : Bool) (key : CString) (value : α) :
    (t.add m s key value).mapValues f = (t.mapValues f).add m s key (f value) :=
  eq_of_toHashtable (t.toHashtable.add_mapValues f m s key value).symm

theorem mapValues_del (key : CString) : (t.del key).mapValues f = (t.mapValues f).del key :=
  eq_of_toHashtable (t.toHashtable.del_mapValues f key).symm

theorem mapValues_adjust {u : α → α} {v : β → β} (huv : ∀ x, f (u x) = v (f x)) (key : CString) :
    (t.adjust key u).mapValues f = (t.mapValues f).adjust key v :=
  eq_of_toHashtable (t.toHashtable.adjust_mapValues f huv key).symm

theorem mapValues_sweep (expired : β → Bool) :
    (t.sweep (expired ∘ f)).mapValues f = (t.mapValues f).sweep expired :=
  eq_of_toHashtable (t.toHashtable.sweep_mapValues f expired).symm

end Table

namespace HeapSniffer

def toSniffer (s : HeapSniffer) : Sniffer where
  datalink := s.datalink
  protocol := s.protocol
  threshold := s.threshold
  synTab := s.synTab.mapValues HeapStats.stats
  requests := s.requests.mapValues HeapRequest.request
  lastExpire := s.lastExpire
  expirePrimed := s.expirePrimed
  luaState := s.luaState
  dumper := s.dumper

theorem toSniffer_create (opts : Options) (datalink : LinkType) :
    (create opts datalink).toSniffer = snifferCreate opts datalink := rfl

variable (s : HeapSniffer)

theorem isSome_synTab (e : Endpoint) :
    (s.toSniffer.synTab.get (endpointKey e)).isSome = (s.synTab.get (endpointKey e)).isSome := by
  simp [toSniffer]

theorem isSome_requests (key : CString) :
    (s.toSniffer.requests.get key).isSome = (s.requests.get key).isSome := by
  simp [toSniffer]

theorem toSniffer_expire (now : Timeval) :
    (s.expireStaleRequests now).toSniffer = Tcpkit.expireStaleRequests s.toSniffer now := by
  have hprimed : s.toSniffer.expirePrimed = s.expirePrimed := rfl
  have hlast : s.toSniffer.lastExpire = s.lastExpire := rfl
  rw [expireStaleRequests, Tcpkit.expireStaleRequests, hprimed, hlast]
  split
  · rfl
  · split
    · rfl
    · simp only [toSniffer, requestsExpire]
      rw [← Table.mapValues_sweep]
      rfl

theorem toSniffer_adjust (e : Endpoint) (u : QueryStats → QueryStats) :
    (s.adjustStats e u).toSniffer =
      { s.toSniffer with synTab := s.toSniffer.synTab.adjust (endpointKey e) u } := by
  simp only [adjustStats, toSniffer]
  rw [Table.mapValues_adjust HeapStats.stats (v := u)]
  exact fun _ => rfl

theorem toSniffer_direction (p : UserPacket) :
    Prod.map toSniffer id (s.packetDirection p) = Tcpkit.packetDirection s.toSniffer p := by
  rw [packetDirection, Tcpkit.packetDirection, isSome_synTab, isSome_synTab]
  split
  · exact Prod.ext (toSniffer_adjust _ _ _) rfl
  · split
    · exact Prod.ext (toSniffer_adjust _ _ _) rfl
    · rfl

theorem toSniffer_register (a : Allocs) (e : Endpoint) :
    (registerEndpoint a s e).toSniffer = Tcpkit.registerEndpoint a s.toSniffer e := by
  rw [registerEndpoint, Tcpkit.registerEndpoint, isSome_synTab]
  split
  · rfl
  · split
    · simp only [toSniffer, malloc]
      rw [Table.mapValues_add]
    · rfl

theorem toSniffer_observe (target : Endpoint) (delta : Int) :
    Prod.map toSniffer id (s.observeResponse target delta) =
      Tcpkit.observeResponse s.toSniffer target delta := by
  rw [observeResponse, Tcpkit.observeResponse, isSome_synTab]
  split
  · exact Prod.ext (toSniffer_adjust _ _ _) rfl
  · rfl

theorem toSniffer_finish (p : UserPacket) (req : Request) :
    Prod.map toSniffer id (s.finishResponse p req) = Tcpkit.finishResponse s.toSniffer p req := by
  refine Prod.ext ?_ ?_
  · simp only [finishResponse, Tcpkit.finishResponse, forgetRequest, toSniffer, Prod.map_fst]
    rw [Table.mapValues_del]
  · simp only [finishResponse, Tcpkit.finishResponse, belowThreshold, decide_eq_true_eq]
    rfl

theorem toSniffer_response (p : UserPacket) :
    Prod.map toSniffer id (s.processResponsePacket p) =
      Tcpkit.processResponsePacket s.toSniffer p := by
  have hget : s.toSniffer.requests.get (pairKey p.dst p.src) =
      (s.requests.get (pairKey p.dst p.src)).map HeapRequest.request := Table.get_mapValues _ _ _
  rw [processResponsePacket, Tcpkit.processResponsePacket, hget]
  cases s.requests.get (pairKey p.dst p.src) with
  | none => rfl
  | some v =>
    simp only [Option.map_some]
    rw [← toSniffer_observe, Prod.map_fst, ← toSniffer_finish]
    rfl

theorem toSniffer_request (a : Allocs) (p : UserPacket) :
    (s.processRequestPacket a p).map toSniffer = Tcpkit.processRequestPacket a s.toSniffer p := by
  have hsize : s.toSniffer.requests.size = s.requests.size := rfl
  have hprotocol : s.toSniffer.protocol = s.protocol := rfl
  simp only [processRequestPacket, Tcpkit.processRequestPacket, isSome_requests, hsize, hprotocol]
  split
  · rfl
  · split
    · rfl
    · split
      · rfl
      · rw [Option.map_map]
        congr 1
        funext payload
        cases payload with
        | none => rfl
        | some payload =>
          simp only [Function.comp_apply, toSniffer, malloc]
          rw [Table.mapValues_add]

/-- The heap follows the processing of a packet and does not change it. -/
theorem toSniffer_processUserPacket (a : Allocs) (p : UserPacket) :
    (processUserPacket a s p).map (Prod.map toSniffer id) =
      Tcpkit.processUserPacket a s.toSniffer p := by
  have hlua : s.toSniffer.luaState = s.luaState := rfl
  have hprotocol : s.toSniffer.protocol = s.protocol := rfl
  simp only [processUserPacket, processDirected, Tcpkit.processUserPacket, hlua, hprotocol,
    ← toSniffer_expire,
    ← toSniffer_direction, Prod.map_snd, id_eq, Prod.map_fst]
  split
  · rfl
  · split
    · rfl
    · split
      · split
        · simp [toSniffer_register]
        · rfl
      · cases ((s.expireStaleRequests p.tv).packetDirection p).2 with
        | response => simp [← toSniffer_response]
        | request =>
          simp only [← toSniffer_request, Option.map_map]
          rfl
        | unknown => rfl

theorem processUserPacket_isSome (p : Packet) :
    (processUserPacket p.allocs s p.toUserPacket).isSome := by
  have h := congrArg Option.isSome (s.toSniffer_processUserPacket p.allocs p.toUserPacket)
  rw [Option.isSome_map] at h
  rw [h]
  exact Tcpkit.processUserPacket_isSome p.readable _ _

def process (p : Packet) : HeapSniffer × List Event :=
  (processUserPacket p.allocs s p.toUserPacket).get (s.processUserPacket_isSome p)

theorem processUserPacket_eq_process (p : Packet) :
    processUserPacket p.allocs s p.toUserPacket = some (s.process p) := by
  simp [process]

theorem toSniffer_process (p : Packet) :
    (s.process p).1.toSniffer = (s.toSniffer.process p).1 := by
  have h := s.toSniffer_processUserPacket p.allocs p.toUserPacket
  rw [processUserPacket_eq_process, Sniffer.processUserPacket_eq_process] at h
  exact congrArg Prod.fst (Option.some.inj h)

end HeapSniffer

end Tcpkit
