import Mathlib.Data.List.Basic
import Tcpkit.MachineInt

/-! The payload formatters of `protocol.c`. A pointer is the list of bytes that
may be read from it on; a read past them makes the whole computation `none`. -/

namespace Tcpkit

abbrev Access (α : Type) := Option α

structure Buf where
  data : List UInt8
  cap : Nat

def maxBufSize : Int := 127

def bufInit (size : Int) : Buf :=
  let cap := if size > maxBufSize then maxBufSize else size
  ⟨[], (if cap < 0 then 0 else cap).toNat⟩

def printable (c : UInt8) : UInt8 := if 0x20 ≤ c ∧ c < 0x7f then c else 0x2e

def appendLoop (src : List UInt8) : Nat → Nat → List UInt8 → Access (List UInt8)
  | _, 0, data => some data
  | i, n + 1, data => src[i]?.bind fun c => appendLoop src (i + 1) n (data ++ [printable c])

def bufAppend (b : Buf) (src : List UInt8) (start : Nat) (n : Int) : Access Buf :=
  let room : Int := b.cap - b.data.length
  let n := if n > room then room else n
  (appendLoop src start n.toNat b.data).map fun data => { b with data := data }

/-- `start[0] == '\r' && start[1] == '\n'`, reading the second byte only when
the first one matches. -/
def crlfAt (src : List UInt8) (start : Nat) : Access Bool :=
  src[start]?.bind fun c =>
    if c = 0x0d then src[start + 1]?.map (fun d => d == 0x0a) else some false

/-- `find_crlf` with `n = end - start` bytes left to search. -/
def findCrlf (src : List UInt8) : Nat → Nat → Access (Option Nat)
  | _, 0 => some none
  | _, 1 => some none
  | start, n + 2 => (crlfAt src start).bind fun hit =>
    if hit then some (some start) else findCrlf src (start + 1) (n + 1)

def appendField (b : Buf) (payload : List UInt8) (start pos : Nat) : Access Buf :=
  (if b.data.length > 0 then bufAppend b [0x20] 0 1 else some b).bind fun b =>
    bufAppend b payload start (pos - start : Nat)

/-- The scanning loop of the formatters. Each pass consumes a CRLF, so `stop + 1`
passes are enough. -/
def segmentLoop (payload : List UInt8) (stop : Nat) (wanted : Nat → Bool) :
    Nat → Nat → Nat → Buf → Access Buf
  | 0, _, _, b => some b
  | fuel + 1, start, fields, b => (findCrlf payload start (stop - start)).bind fun pos =>
    match pos with
    | none => some b
    | some pos =>
      if wanted fields then
        (appendField b payload start pos).bind fun b =>
          if b.data.length ≥ b.cap then some b
          else segmentLoop payload stop wanted fuel (pos + 2) (fields + 1) b
      else segmentLoop payload stop wanted fuel (pos + 2) (fields + 1) b

def formatSegments (mallocOk : Bool) (payload : List UInt8) (size : Int) (wanted : Nat → Bool) :
    Access (Option (List UInt8)) :=
  if mallocOk then
    (segmentLoop payload size.toNat wanted (size.toNat + 1) 0 0 (bufInit size)).bind fun b =>
      (if b.data.length = 0 then bufAppend b payload 0 size else some b).map fun b => some b.data
  else some none

def formatRaw (mallocOk : Bool) (payload : List UInt8) (size : Int) :
    Access (Option (List UInt8)) :=
  if mallocOk then (bufAppend (bufInit size) payload 0 size).map fun b => some b.data
  else some none

def formatMemcached (mallocOk : Bool) (payload : List UInt8) (size : Int) :
    Access (Option (List UInt8)) :=
  formatSegments mallocOk payload size (fun _ => true)

def formatHttp (mallocOk : Bool) (payload : List UInt8) (size : Int) :
    Access (Option (List UInt8)) :=
  formatMemcached mallocOk payload size

/-- A RESP array alternates a `$length` line with the argument itself. -/
def formatRedis (mallocOk : Bool) (payload : List UInt8) (size : Int) :
    Access (Option (List UInt8)) :=
  if size ≤ 0 then formatRaw mallocOk payload size
  else payload[0]?.bind fun c =>
    if c = 0x2a then formatSegments mallocOk payload size (fun fields => fields ≠ 0 ∧ fields % 2 = 0)
    else formatMemcached mallocOk payload size

theorem appendLoop_eq (src : List UInt8) (i n : Nat) (data : List UInt8)
    (h : i + n ≤ src.length) :
    appendLoop src i n data = some (data ++ ((src.drop i).take n).map printable) := by
  induction n generalizing i data with
  | zero => simp [appendLoop]
  | succ n ih =>
    have hi : i < src.length := by omega
    rw [appendLoop, List.getElem?_eq_getElem hi, Option.bind_some, ih _ _ (by omega),
      List.drop_eq_getElem_cons hi, List.take_succ_cons, List.map_cons, List.append_assoc,
      List.singleton_append]

end Tcpkit
