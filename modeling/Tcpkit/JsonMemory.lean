import Tcpkit.JsonParse
import Tcpkit.JsonPrint
import Tcpkit.OwnedCells

/-! The items of the JSON library in memory: what `server_stats_to_json` and the functions below
it allocate, link, read and free. Each call of the allocator may be refused. -/

namespace Tcpkit

open Memory

structure CJson (ν : Type) where
  next : Option ν
  prev : Option ν
  child : Option ν
  type : UInt32
  valueString : Option ν
  valueInt : Nat
  valueDouble : Nat
  string : Option ν

inductive JsonBlock (ν : Type) where
  | item (item : CJson ν)
  | text (text : CString)
  | values (values : List QueryStats)

namespace JsonMemory

def cJsonFalse : UInt32 := 1
def cJsonTrue : UInt32 := 2
def cJsonNull : UInt32 := 4
def cJsonNumber : UInt32 := 8
def cJsonString : UInt32 := 16
def cJsonArray : UInt32 := 32
def cJsonObject : UInt32 := 64
def cJsonIsReference : UInt32 := 256
def cJsonStringIsConst : UInt32 := 512

variable {ν : Type} [DecidableEq ν]

def loadItem (n : ν) : Routine ν (JsonBlock ν) (CJson ν) := do
  match ← load n with
  | .item item => return item
  | _ => fault

def loadText (n : ν) : Routine ν (JsonBlock ν) CString := do
  match ← load n with
  | .text text => return text
  | _ => fault

def modifyItem (n : ν) (f : CJson ν → CJson ν) : Routine ν (JsonBlock ν) Unit := do
  let item ← loadItem n
  store n (.item (f item))

section Building

variable (malloc : Allocator ν)

def cJsonStrdup (string : CString) : Routine ν (JsonBlock ν) (Option ν) := alloc malloc (.text string)

/-- `malloc` and `memset`. -/
def newItem : Routine ν (JsonBlock ν) (Option ν) :=
  alloc malloc (.item ⟨none, none, none, 0, none, 0, 0, none⟩)

/-- The loop of `cJSON_Delete` with its recursion into the children. -/
def deleteLoop : Nat → Option ν → Routine ν (JsonBlock ν) Unit
  | _, none => pure ()
  | 0, some _ => fault
  | fuel + 1, some n => do
    let item ← loadItem n
    if item.type &&& cJsonIsReference = 0 then deleteLoop fuel item.child
    if item.type &&& cJsonIsReference = 0 then release item.valueString
    if item.type &&& cJsonStringIsConst = 0 then release item.string
    free n
    deleteLoop fuel item.next

def cJsonDelete (item : Option ν) : Routine ν (JsonBlock ν) Unit := do
  let fuel ← size
  deleteLoop fuel item

def suffixObject (prev item : ν) : Routine ν (JsonBlock ν) Unit := do
  modifyItem prev fun p => { p with next := some item }
  modifyItem item fun i => { i with prev := some prev }

def lastSibling : Nat → ν → Routine ν (JsonBlock ν) ν
  | 0, _ => fault
  | fuel + 1, child => do
    match (← loadItem child).next with
    | none => return child
    | some next => lastSibling fuel next

def addItemToArray : Option ν → Option ν → Routine ν (JsonBlock ν) Bool
  | some array, some item => do
    match (← loadItem array).child with
    | none =>
      modifyItem array fun a => { a with child := some item }
      modifyItem item fun i => { i with prev := some item, next := none }
      return true
    | some child =>
      match (← loadItem child).prev with
      | some last => suffixObject last item
      | none => suffixObject (← lastSibling (← size) child) item
      match (← loadItem array).child with
      | none => fault
      | some child =>
        modifyItem child fun c => { c with prev := some item }
        return true
  | _, _ => return false

/-- The key is copied. -/
def addItemToObject (object : Option ν) (string : CString) (item : Option ν) : Routine ν (JsonBlock ν) Bool :=
  match object, item with
  | some object, some item => do
    match ← cJsonStrdup malloc string with
    | none => return false
    | some newKey =>
      let old ← loadItem item
      if old.type &&& cJsonStringIsConst = 0 then release old.string
      modifyItem item fun i => { i with string := some newKey, type := old.type &&& ~~~cJsonStringIsConst }
      addItemToArray (some object) (some item)
  | _, _ => return false

/-- A new item of which a field or two are set when there is one. -/
def createItem (fields : CJson ν → CJson ν) : Routine ν (JsonBlock ν) (Option ν) := do
  match ← newItem malloc with
  | none => return none
  | some item =>
    modifyItem item fields
    return some item

def cJsonCreateNumber (num : Nat) : Routine ν (JsonBlock ν) (Option ν) :=
  createItem malloc fun item =>
    { item with type := cJsonNumber, valueDouble := num, valueInt := if num ≥ intMax then intMax else num }

def cJsonCreateArray : Routine ν (JsonBlock ν) (Option ν) :=
  createItem malloc fun item => { item with type := cJsonArray }

def cJsonCreateObject : Routine ν (JsonBlock ν) (Option ν) :=
  createItem malloc fun item => { item with type := cJsonObject }

def cJsonAddNumberToObject (object : Option ν) (name : CString) (number : Nat) :
    Routine ν (JsonBlock ν) (Option ν) := do
  let numberItem ← cJsonCreateNumber malloc number
  if ← addItemToObject malloc object name numberItem then return numberItem
  cJsonDelete numberItem
  return none

def latencyLoop (stats : QueryStats) (latencyObject : Option ν) : List (Fin 18) → Routine ν (JsonBlock ν) Unit
  | [] => pure ()
  | i :: is => do
    if stats.buckets i ≠ 0 then
      let bucketObject ← cJsonCreateObject malloc
      discard (cJsonAddNumberToObject malloc bucketObject (bucketName i) (toDouble (stats.buckets i)))
      discard (addItemToArray latencyObject bucketObject)
    latencyLoop stats latencyObject is

def createStatsObject (stats : QueryStats) : Routine ν (JsonBlock ν) (Option ν) := do
  let statsObject ← cJsonCreateObject malloc
  discard (cJsonAddNumberToObject malloc statsObject (CString.literal "requests") (toDouble stats.requests))
  discard (cJsonAddNumberToObject malloc statsObject (CString.literal "request_bytes")
    (toDouble stats.requestBytes))
  discard (cJsonAddNumberToObject malloc statsObject (CString.literal "responses") (toDouble stats.responses))
  discard (cJsonAddNumberToObject malloc statsObject (CString.literal "response_bytes")
    (toDouble stats.responseBytes))
  let latencyObject ← cJsonCreateArray malloc
  latencyLoop malloc stats latencyObject (List.finRange 18)
  discard (addItemToObject malloc statsObject (CString.literal "latency") latencyObject)
  return statsObject

/-- `n` passes of the loop over the values from index `i` on. -/
def membersLoop (object : Option ν) (values : List QueryStats) : Nat → Nat → Routine ν (JsonBlock ν) Unit
  | 0, _ => pure ()
  | n + 1, i =>
    match values[i]? with
    | none => fault
    | some stats => do
      let item ← createStatsObject malloc stats
      discard (addItemToObject malloc object (memberName stats.endpoint) item)
      membersLoop object values n (i + 1)

/-- The block of the values, where there are any; `allocOk` answers when it grows. -/
def statsValues (allocOk : Int → Bool) (synTab : Hashtable QueryStats) :
    Routine ν (JsonBlock ν) (Option ν × List QueryStats × Int) :=
  match hashtableValues allocOk synTab with
  | none => fault
  | some (stored, cnt) => do
    if stored = [] then return (none, [], 0)
    match ← alloc malloc (.values stored) with
    | none => return (none, [], 0)
    | some values => return (some values, stored, cnt)

end Building

section Printing

def emptyText : CString := ⟨[], List.not_mem_nil⟩

/-- A string that is NULL is printed as an empty one. -/
def readText : Option ν → Routine ν (JsonBlock ν) CString
  | none => return emptyText
  | some n => loadText n

/-- What `print_value` reads of an item, by its type. -/
def itemValue (children : Option ν → Routine ν (JsonBlock ν) (List (CString × JsonItem Nat)))
    (item : CJson ν) :
    Routine ν (JsonBlock ν) (JsonItem Nat) := do
  let type := item.type &&& 0xff
  if type = cJsonNull then return .null
  else if type = cJsonFalse then return .bool false
  else if type = cJsonTrue then return .bool true
  else if type = cJsonNumber then return .number item.valueDouble
  else if type = cJsonString then return .string (← readText item.valueString)
  else if type = cJsonArray then return .array ((← children item.child).map Prod.snd)
  else if type = cJsonObject then return .object (← children item.child)
  else fault

def readItems : Nat → Option ν → Routine ν (JsonBlock ν) (List (CString × JsonItem Nat))
  | _, none => return []
  | 0, some _ => fault
  | fuel + 1, some n => do
    let item ← loadItem n
    let key ← readText item.string
    let value ← itemValue (readItems fuel) item
    let rest ← readItems fuel item.next
    return (key, value) :: rest

/-- `cJSON_Print` of the item that is read through its pointers. -/
def cJsonPrint (hooks : Hooks) : Option ν → Routine ν (JsonBlock ν) (Option CString)
  | none => return none
  | some n => do
    let fuel ← size
    let item ← loadItem n
    let value ← itemValue (readItems fuel) item
    match Tcpkit.cJsonPrint hooks value with
    | none => fault
    | some r => return r.block.map cString

end Printing

def serverStatsToJson (malloc : Allocator ν) (allocOk : Int → Bool) (hooks : Hooks)
    (synTab : Hashtable QueryStats) : Routine ν (JsonBlock ν) (Option CString) := do
  let object ← cJsonCreateObject malloc
  let (block, values, cnt) ← statsValues malloc allocOk synTab
  membersLoop malloc object values cnt.toNat 0
  let text ← cJsonPrint hooks object
  cJsonDelete object
  release block
  return text

end JsonMemory

end Tcpkit
