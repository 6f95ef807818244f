import Mathlib.Data.Fintype.Basic
import Mathlib.Data.List.FinRange
import Tcpkit.CString
import Tcpkit.MachineInt

/-! The chained hash table of `hashtable.c`. A bucket chain is the list of its
entries from the head on; the counters are 32-bit `int`s. -/

namespace Tcpkit

open MachineInt

def hashMultiplier : UInt32 := 0x5bd1e995

def hashBlock (h : UInt32) (a b c d : UInt8) : UInt32 :=
  let k := a.toUInt32 ||| (b.toUInt32 <<< 8) ||| (c.toUInt32 <<< 16) ||| (d.toUInt32 <<< 24)
  let k := k * hashMultiplier
  let k := k ^^^ (k >>> 24)
  let k := k * hashMultiplier
  (h * hashMultiplier) ^^^ k

def hashBlocks (h : UInt32) : List UInt8 → UInt32 × List UInt8
  | a :: b :: c :: d :: rest => hashBlocks (hashBlock h a b c d) rest
  | tail => (h, tail)

def hashTail (h : UInt32) : List UInt8 → UInt32
  | [a, b, c] => (h ^^^ (c.toUInt32 <<< 16) ^^^ (b.toUInt32 <<< 8) ^^^ a.toUInt32) * hashMultiplier
  | [a, b] => (h ^^^ (b.toUInt32 <<< 8) ^^^ a.toUInt32) * hashMultiplier
  | [a] => (h ^^^ a.toUInt32) * hashMultiplier
  | _ => h

/-- `len` is an `int`: a negative one leaves only the seed to be mixed. -/
def hashFunction (key : List UInt8) (len : Int) : UInt32 :=
  let (h, tail) := hashBlocks (5381 ^^^ UInt32.ofInt len) (key.take len.toNat)
  let h := hashTail h tail
  let h := h ^^^ (h >>> 13)
  let h := h * hashMultiplier
  h ^^^ (h >>> 15)

structure Entry (α : Type) where
  key : CString
  value : α
  deriving DecidableEq

structure Hashtable (α : Type) where
  nbucket : Nat
  pos : 0 < nbucket
  size : Int
  buckets : Fin nbucket → List (Entry α)

def hashtableCreate {α : Type} (nbucket : Int) : Option (Hashtable α) :=
  if h : nbucket ≤ 0 then none
  else some ⟨nbucket.toNat, by omega, 0, fun _ => []⟩

namespace Hashtable

variable {α : Type}

def bucketOf (ht : Hashtable α) (key : CString) : Fin ht.nbucket :=
  ⟨(hashFunction key.bytes (int32 key.strlen)).toNat % ht.nbucket, Nat.mod_lt _ ht.pos⟩

def entries (ht : Hashtable α) : List (Entry α) :=
  (List.finRange ht.nbucket).flatMap ht.buckets

def setChain (ht : Hashtable α) (b : Fin ht.nbucket) (chain : List (Entry α)) (size : Int) :
    Hashtable α :=
  { ht with buckets := Function.update ht.buckets b chain, size := size }

end Hashtable

def sameKey {α : Type} (key : CString) (e : Entry α) : Bool :=
  key.strlen == e.key.strlen && CString.strncmpEq key e.key key.strlen

section Chains

variable {α : Type}

def getChain (key : CString) : List (Entry α) → Option α
  | [] => none
  | e :: rest => if sameKey key e then some e.value else getChain key rest

def delChain (key : CString) : List (Entry α) → Option (List (Entry α))
  | [] => none
  | e :: rest => if sameKey key e then some rest else (delChain key rest).map (e :: ·)

/-- A write through the pointer stored in the entry with the key. -/
def adjustChain (key : CString) (f : α → α) : List (Entry α) → List (Entry α)
  | [] => []
  | e :: rest =>
    if sameKey key e then ⟨e.key, f e.value⟩ :: rest else e :: adjustChain key f rest

def sweepChain (expired : α → Bool) :
    List (Entry α) → Int → Int → List (Entry α) × Int × Int
  | [], size, removed => ([], size, removed)
  | e :: rest, size, removed =>
    if expired e.value then sweepChain expired rest (int32 (size - 1)) (int32 (removed + 1))
    else
      let r := sweepChain expired rest size removed
      (e :: r.1, r.2)

def sweepBuckets (expired : α → Bool) {n : Nat} :
    List (Fin n) → (Fin n → List (Entry α)) → Int → Int → (Fin n → List (Entry α)) × Int × Int
  | [], buckets, size, removed => (buckets, size, removed)
  | i :: is, buckets, size, removed =>
    let r := sweepChain expired (buckets i) size removed
    sweepBuckets expired is (Function.update buckets i r.1) r.2.1 r.2.2

end Chains

section Operations

variable {α : Type}

def hashtableGet (ht : Hashtable α) (key : CString) : Option α :=
  getChain key (ht.buckets (ht.bucketOf key))

/-- The value already stored, or NULL after an insertion. NULL is also what a
failed allocation of the entry or of its key returns. -/
def hashtableAdd (mallocOk strdupOk : Bool) (ht : Hashtable α) (key : CString) (value : α) :
    Hashtable α × Option α :=
  let bucket := ht.bucketOf key
  match getChain key (ht.buckets bucket) with
  | some v => (ht, some v)
  | none =>
    if mallocOk && strdupOk then
      (ht.setChain bucket (⟨key, value⟩ :: ht.buckets bucket) (int32 (ht.size + 1)), none)
    else (ht, none)

def hashtableDel (ht : Hashtable α) (key : CString) : Hashtable α × Int :=
  let bucket := ht.bucketOf key
  match delChain key (ht.buckets bucket) with
  | some chain => (ht.setChain bucket chain (int32 (ht.size - 1)), 1)
  | none => (ht, 0)

def hashtableAdjust (ht : Hashtable α) (key : CString) (f : α → α) : Hashtable α :=
  let bucket := ht.bucketOf key
  ht.setChain bucket (adjustChain key f (ht.buckets bucket)) ht.size

def hashtableSweep (ht : Hashtable α) (expired : α → Bool) : Hashtable α × Int :=
  let r := sweepBuckets expired (List.finRange ht.nbucket) ht.buckets ht.size 0
  ({ ht with buckets := r.1, size := r.2.1 }, r.2.2)

/-- The growing array of `hashtable_values`: what has been stored, the counter
behind `cnt`, and the elements the current block can hold, `none` for NULL. -/
structure Values (α : Type) where
  stored : List α
  cnt : Int
  cap : Int
  block : Option Nat

/-- `values[*cnt] = value`; `none` is a store outside the block. -/
def Values.store (v : Values α) (value : α) : Option (Values α) :=
  match v.block with
  | none => none
  | some slots =>
    if 0 ≤ v.cnt ∧ v.cnt < slots then
      some { v with stored := v.stored ++ [value], cnt := int32 (v.cnt + 1) }
    else none

/-- `sizeof(void *) * cap`, a product of the type `size_t`. -/
def blockBytes (cap : Int) : Nat := (8 * cap % 2 ^ 64).toNat

def blockSlots (cap : Int) : Nat := blockBytes cap / 8

/-- No allocator hands out a block of more than `PTRDIFF_MAX` bytes. -/
def reallocOk (allocOk : Int → Bool) (cnt cap : Int) : Bool := allocOk cnt && decide (blockBytes cap < 2 ^ 63)

/-- `allocOk cnt` tells whether the allocation made at that count succeeds; a
failed one ends the walk early with what is stored so far. -/
def valuesLoop (allocOk : Int → Bool) : List (Entry α) → Values α → Option (Values α)
  | [], v => some v
  | e :: rest, v =>
    if v.block = none then
      if allocOk v.cnt then
        ({ v with cap := 1, block := some 1 }.store e.value).bind (valuesLoop allocOk rest)
      else some v
    else if v.cnt = v.cap then
      let cap := int32 (v.cap * 2)
      if reallocOk allocOk v.cnt cap then
        ({ v with cap := cap, block := some (blockSlots cap) }.store e.value).bind
          (valuesLoop allocOk rest)
      else some { v with cap := cap }
    else (v.store e.value).bind (valuesLoop allocOk rest)

def hashtableValues (allocOk : Int → Bool) (ht : Hashtable α) : Option (List α × Int) :=
  (valuesLoop allocOk ht.entries ⟨[], 0, 0, none⟩).map (fun v => (v.stored, v.cnt))

end Operations

end Tcpkit
