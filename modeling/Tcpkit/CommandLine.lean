import Tcpkit.Sniffer

/-! The command line, as `parse_options` reads it: one pass over the arguments, in which an option
may take the argument behind it and everything else is a word of the filter. -/

namespace Tcpkit

open MachineInt

/-- All of `struct options`. A null pointer is `none`. -/
structure CommandOptions extends Options where
  dev : Option CString
  filter : Option CString
  offlineFile : Option CString
  snaplen : Int
  bufSize : Int
  printVersion : Bool
  printUsage : Bool
  statsPort : Int
  ascii : Bool

/-- Which allocations succeed: the record, its device name, what argument `i` needs and the empty
filter. `fresh` is what `realloc` finds in the bytes it adds for argument `i`. -/
structure ParseMemory where
  opts : Bool
  dev : Bool
  arg : Nat → Bool
  filter : Bool
  fresh : Nat → Nat → UInt8

def maxErrBuffSize : Nat := 256

def invalidText (arg : CString) : CString :=
  CString.snprintf maxErrBuffSize ((CString.literal "invalid option \"").append
    (arg.append (CString.literal "\" or option argument missing")))

def oomText : CString := CString.snprintf maxErrBuffSize (CString.literal "out of memory")

def strdup (ok : Bool) (s : CString) : Option CString := if ok then some s else none

section Atoi

def isSpace (c : UInt8) : Bool := c = 0x20 ∨ 0x09 ≤ c ∧ c ≤ 0x0d

def digitsValue : Nat → List UInt8 → Nat
  | n, [] => n
  | n, c :: cs => if 0x30 ≤ c ∧ c ≤ 0x39 then digitsValue (n * 10 + (c.toNat - 0x30)) cs else n

/-- `strtol` in base ten, which stops at the ends of a `long`. -/
def strtol (s : CString) : Int :=
  match s.bytes.dropWhile isSpace with
  | [] => 0
  | c :: cs =>
    if c = 0x2d then max (-2 ^ 63) (-digitsValue 0 cs)
    else if c = 0x2b then min (2 ^ 63 - 1) (digitsValue 0 cs)
    else min (2 ^ 63 - 1) (digitsValue 0 (c :: cs))

def atoi (s : CString) : Int := int32 (strtol s)

end Atoi

section Filter

def reallocate (fresh : Nat → UInt8) (buf : List UInt8) (size : Nat) : List UInt8 :=
  (buf ++ (List.range (size - buf.length)).map fresh).take size

def storeAt (buf : List UInt8) (pos : Int) (bytes : List UInt8) : Access (List UInt8) :=
  if 0 ≤ pos ∧ pos + bytes.length ≤ buf.length then
    some (buf.take pos.toNat ++ bytes ++ buf.drop (pos.toNat + bytes.length))
  else none

def stringAt (buf : List UInt8) : CString where
  bytes := buf.takeWhile (fun c => c ≠ 0)
  noNul := fun h => by simpa using List.mem_takeWhile_imp h

def writeWord (tmp : List UInt8) (oldSize newSize : Int) (word : CString) : Access CString := do
  let tmp ← storeAt tmp oldSize [0x20]
  let tmp ← storeAt tmp (oldSize + 1) word.bytes
  let tmp ← storeAt tmp (newSize - 1) [0]
  return stringAt tmp

/-- A negative size is more than `realloc` ever finds. -/
def growFilter (ok : Bool) (fresh : Nat → UInt8) (filter word : CString) :
    Access (Except CString CString) :=
  let oldSize := int32 filter.strlen
  let newSize := int32 (oldSize + word.strlen + 2)
  if !ok ∨ newSize < 0 then some (.error oomText)
  else (writeWord (reallocate fresh (filter.bytes ++ [0]) newSize.toNat) oldSize newSize word).map .ok

theorem storeAt_append (front old bytes back : List UInt8) (pos : Int)
    (hpos : pos = front.length) (hlength : old.length = bytes.length) :
    storeAt (front ++ old ++ back) pos bytes = some (front ++ bytes ++ back) := by
  subst hpos
  have hfits : (front.length : Int) + bytes.length ≤ ((front ++ old ++ back).length : Int) := by
    rw [List.length_append, List.length_append]
    omega
  rw [storeAt, if_pos ⟨Int.natCast_nonneg _, hfits⟩, Int.toNat_natCast, ← hlength,
    ← List.length_append, List.drop_left, List.append_assoc front old back, List.take_left]

theorem stringAt_append_nul (s : CString) : stringAt (s.bytes ++ [0]) = s := by
  apply CString.ext
  have hall : ∀ c ∈ s.bytes, decide (c ≠ 0) = true := by
    intro c hc
    rw [decide_eq_true_eq]
    exact fun h0 => s.noNul (h0 ▸ hc)
  change (s.bytes ++ [0]).takeWhile (fun c => decide (c ≠ 0)) = s.bytes
  rw [List.takeWhile_append_of_pos hall, List.takeWhile_cons_of_neg (by decide),
    List.append_nil]

/-- The writes end inside the buffer. What `realloc` added is overwritten up to its last byte, and
that one becomes the terminator. -/
theorem writeWord_eq (filter word : CString) {added : List UInt8} (last : UInt8)
    (hadded : added.length = word.strlen) :
    writeWord (filter.bytes ++ [0] ++ (added ++ [last])) filter.strlen
      (filter.strlen + word.strlen + 2) word = some (CString.joined 0x20 space_ne_nul filter word) := by
  have hblank := storeAt_append filter.bytes [0] [0x20] (added ++ [last]) filter.strlen rfl rfl
  have hword := storeAt_append (filter.bytes ++ [0x20]) added word.bytes [last] (filter.strlen + 1)
    (by simp [CString.strlen]) hadded
  have hlast := storeAt_append (filter.bytes ++ [0x20] ++ word.bytes) [last] [0] []
    ((filter.strlen : Int) + word.strlen + 2 - 1) (by simp [CString.strlen]; omega) rfl
  have htext := stringAt_append_nul (CString.joined 0x20 space_ne_nul filter word)
  rw [List.append_assoc (filter.bytes ++ [0x20]) added [last]] at hword
  rw [List.append_nil, List.append_nil] at hlast
  rw [CString.joined_bytes, List.append_cons filter.bytes] at htext
  rw [writeWord, hblank]
  simp only [bind, Option.bind, hword, hlast, htext]
  rfl

theorem reallocate_eq (fresh : Nat → UInt8) (buf : List UInt8) (n : Nat) :
    ∃ added last, added.length = n ∧
      reallocate fresh buf (buf.length + n + 1) = buf ++ (added ++ [last]) := by
  refine ⟨(List.range n).map fresh, fresh n, by simp, ?_⟩
  have hcount : buf.length + n + 1 - buf.length = n + 1 := by omega
  rw [reallocate, hcount, List.range_succ, List.map_append, List.map_singleton]
  apply List.take_of_length_le
  simp
  omega

theorem growFilter_eq (fresh : Nat → UInt8) {filter word : CString}
    (hfits : filter.strlen + word.strlen + 2 < 2 ^ 31) :
    growFilter true fresh filter word = some (.ok (CString.joined 0x20 space_ne_nul filter word)) := by
  have hold : int32 filter.strlen = filter.strlen := int32_eq_self (by omega) (by omega)
  have hnew : int32 ((filter.strlen : Int) + word.strlen + 2) = filter.strlen + word.strlen + 2 :=
    int32_eq_self (by omega) (by omega)
  have hkept : ¬((!true) = true ∨ (filter.strlen : Int) + word.strlen + 2 < 0) := by
    simp
    omega
  have hsize : ((filter.strlen : Int) + word.strlen + 2).toNat =
      (filter.bytes ++ [0]).length + word.strlen + 1 := by
    simp [CString.strlen]
    omega
  obtain ⟨added, last, hadded, hbuffer⟩ := reallocate_eq fresh (filter.bytes ++ [0]) word.strlen
  unfold growFilter
  dsimp only
  rw [hold, hnew, if_neg hkept, hsize, hbuffer, writeWord_eq filter word last hadded]
  rfl

end Filter

inductive OptionName where
  | version
  | usage
  | ascii
  | dev
  | bufSize
  | threshold
  | protocol
  | statsPort
  | snaplen
  | script
  | offlineFile
  | saveFile
  deriving DecidableEq

def OptionName.text : OptionName → CString
  | version => CString.literal "-v"
  | usage => CString.literal "-h"
  | ascii => CString.literal "-A"
  | dev => CString.literal "-i"
  | bufSize => CString.literal "-B"
  | threshold => CString.literal "-t"
  | protocol => CString.literal "-p"
  | statsPort => CString.literal "-P"
  | snaplen => CString.literal "-s"
  | script => CString.literal "-S"
  | offlineFile => CString.literal "-r"
  | saveFile => CString.literal "-w"

/-- The options in the order in which the loop compares them with an argument. -/
def OptionName.all : List OptionName :=
  [version, usage, ascii, dev, bufSize, threshold, protocol, statsPort, snaplen, script, offlineFile,
    saveFile]

def optionNamed (arg : CString) : Option OptionName :=
  OptionName.all.find? fun o => arg = o.text

def ProtocolType.text : ProtocolType → CString
  | raw => CString.literal "raw"
  | redis => CString.literal "redis"
  | memcached => CString.literal "memcached"
  | http => CString.literal "http"

def protocolNamed (value : CString) : Option ProtocolType :=
  [ProtocolType.raw, .redis, .memcached, .http].find? fun p => value = p.text

def initOptions (m : ParseMemory) : CommandOptions where
  dev := strdup m.dev (CString.literal "any")
  ascii := false
  filter := none
  offlineFile := none
  saveFile := none
  script := none
  snaplen := 1500
  bufSize := 512 * 1024 * 1024
  printUsage := false
  printVersion := false
  protocol := .raw
  threshold := 0
  statsPort := 33333

/-- The record after an argument, and whether the argument behind it was taken too. -/
abbrev Parsed := Except CString (CommandOptions × Bool)

/-- An option with a value is invalid as the last argument. -/
def withValue (arg : CString) (next : Option CString) (set : CString → CommandOptions) : Parsed :=
  match next with
  | none => .error (invalidText arg)
  | some value => .ok (set value, true)

def parseProtocol (arg : CString) (next : Option CString) (opts : CommandOptions) : Parsed :=
  match next.bind protocolNamed with
  | none => .error (invalidText arg)
  | some protocol => .ok ({ opts with protocol := protocol }, true)

def parseWord (m : ParseMemory) (i : Nat) (arg : CString) (opts : CommandOptions) : Access Parsed :=
  if arg.bytes.head? = some 0x2d then some (.error (invalidText arg))
  else match opts.filter with
    | none => some (.ok ({ opts with filter := strdup (m.arg i) arg }, false))
    | some filter => (growFilter (m.arg i) (m.fresh i) filter arg).map fun grown =>
      grown.map fun filter => ({ opts with filter := some filter }, false)

/-- One pass of the loop: `arg` is `argv[i]` and `next` the argument behind it, if there is one. -/
def parseArg (m : ParseMemory) (i : Nat) (arg : CString) (next : Option CString)
    (opts : CommandOptions) : Access Parsed :=
  match optionNamed arg with
  | some .version => some (.ok ({ opts with printVersion := true }, false))
  | some .usage => some (.ok ({ opts with printUsage := true }, false))
  | some .ascii => some (.ok ({ opts with ascii := true }, false))
  | some .dev => some (withValue arg next fun v => { opts with dev := strdup (m.arg i) v })
  | some .bufSize => some (withValue arg next fun v => { opts with bufSize := int32 (atoi v * 1024) })
  | some .threshold => some (withValue arg next fun v => { opts with threshold := atoi v })
  | some .protocol => some (parseProtocol arg next opts)
  | some .statsPort => some (withValue arg next fun v => { opts with statsPort := atoi v })
  | some .snaplen => some (withValue arg next fun v => { opts with snaplen := atoi v })
  | some .script => some (withValue arg next fun v => { opts with script := strdup (m.arg i) v })
  | some .offlineFile =>
    some (withValue arg next fun v => { opts with offlineFile := strdup (m.arg i) v })
  | some .saveFile => some (withValue arg next fun v => { opts with saveFile := strdup (m.arg i) v })
  | none => parseWord m i arg opts

def parseLoop (m : ParseMemory) : Nat → List CString → CommandOptions →
    Access (Except CString CommandOptions)
  | _, [], opts => some (.ok opts)
  | i, [arg], opts => (parseArg m i arg none opts).map fun parsed => parsed.map Prod.fst
  | i, arg :: next :: rest, opts => do
    match ← parseArg m i arg (some next) opts with
    | .error err => return .error err
    | .ok (opts, false) => parseLoop m (i + 1) (next :: rest) opts
    | .ok (opts, true) => parseLoop m (i + 2) rest opts

def parseOptions (m : ParseMemory) (argv : List CString) : Access (Except CString CommandOptions) :=
  if !m.opts then some (.error oomText)
  else (parseLoop m 1 (argv.drop 1) (initOptions m)).map fun parsed => parsed.bind fun opts =>
    match opts.filter.or (strdup m.filter (CString.literal "")) with
    | some filter => .ok { opts with filter := some filter }
    | none => .error oomText

end Tcpkit
