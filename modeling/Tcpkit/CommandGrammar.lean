import Tcpkit.CommandLine

/-! Which command lines are accepted, and what they mean. The arguments are read as a sequence of
items, each of which sets one field of the options or is a word of the filter, so only the order of
items of one kind matters. -/

namespace Tcpkit

open MachineInt

def spanOf (args : List CString) : Nat := (args.map fun arg => arg.strlen + 1).sum

/-- The arguments of a process. The system hands over far fewer than `2 ^ 31` bytes. -/
structure ArgVector where
  args : List CString
  fits : spanOf args < 2 ^ 31

/-- All allocations succeed, whatever `realloc` finds in new memory. -/
structure ParseMemory.Succeeds (m : ParseMemory) : Prop where
  opts : m.opts = true
  dev : m.dev = true
  arg : ∀ i, m.arg i = true
  filter : m.filter = true

inductive Flag where
  | version
  | usage
  | ascii
  deriving DecidableEq

inductive Valued where
  | dev
  | bufSize
  | threshold
  | statsPort
  | snaplen
  | script
  | offlineFile
  | saveFile
  deriving DecidableEq

def Flag.name : Flag → OptionName
  | version => .version
  | usage => .usage
  | ascii => .ascii

def Valued.name : Valued → OptionName
  | dev => .dev
  | bufSize => .bufSize
  | threshold => .threshold
  | statsPort => .statsPort
  | snaplen => .snaplen
  | script => .script
  | offlineFile => .offlineFile
  | saveFile => .saveFile

/-- An item of the command line; a word does not start with a dash. -/
inductive Item where
  | flag (flag : Flag)
  | valued (option : Valued) (value : CString)
  | protocol (protocol : ProtocolType)
  | word (word : CString) (noDash : word.bytes.head? ≠ some 0x2d)
  deriving DecidableEq

def Flag.set (opts : CommandOptions) : Flag → CommandOptions
  | version => { opts with printVersion := true }
  | usage => { opts with printUsage := true }
  | ascii => { opts with ascii := true }

def Valued.set (opts : CommandOptions) (value : CString) : Valued → CommandOptions
  | dev => { opts with dev := some value }
  | bufSize => { opts with bufSize := int32 (atoi value * 1024) }
  | threshold => { opts with threshold := atoi value }
  | statsPort => { opts with statsPort := atoi value }
  | snaplen => { opts with snaplen := atoi value }
  | script => { opts with script := some value }
  | offlineFile => { opts with offlineFile := some value }
  | saveFile => { opts with saveFile := some value }

def joinWord (filter : Option CString) (word : CString) : CString :=
  match filter with
  | none => word
  | some filter => CString.joined 0x20 space_ne_nul filter word

namespace Item

def name : Item → Option OptionName
  | flag f => some f.name
  | valued option _ => some option.name
  | protocol _ => some .protocol
  | word _ _ => none

def args : Item → List CString
  | flag f => [f.name.text]
  | valued option value => [option.name.text, value]
  | protocol p => [OptionName.protocol.text, p.text]
  | word w _ => [w]

def apply (opts : CommandOptions) : Item → CommandOptions
  | flag f => f.set opts
  | valued option value => option.set opts value
  | protocol p => { opts with protocol := p }
  | word w _ => { opts with filter := some (joinWord opts.filter w) }

end Item

def wordOf : Item → Option CString
  | .word w _ => some w
  | _ => none

theorem Item.filter_apply {item : Item} (h : wordOf item = none) (opts : CommandOptions) :
    (item.apply opts).filter = opts.filter := by
  cases item with
  | flag f => cases f <;> rfl
  | valued option value => cases option <;> rfl
  | protocol p => rfl
  | word w hdash => cases h

theorem OptionName.cases (o : OptionName) :
    (∃ f : Flag, o = f.name) ∨ (∃ option : Valued, o = option.name) ∨ o = .protocol := by
  cases o with
  | version => exact Or.inl ⟨.version, rfl⟩
  | usage => exact Or.inl ⟨.usage, rfl⟩
  | ascii => exact Or.inl ⟨.ascii, rfl⟩
  | dev => exact Or.inr (Or.inl ⟨.dev, rfl⟩)
  | bufSize => exact Or.inr (Or.inl ⟨.bufSize, rfl⟩)
  | threshold => exact Or.inr (Or.inl ⟨.threshold, rfl⟩)
  | protocol => exact Or.inr (Or.inr rfl)
  | statsPort => exact Or.inr (Or.inl ⟨.statsPort, rfl⟩)
  | snaplen => exact Or.inr (Or.inl ⟨.snaplen, rfl⟩)
  | script => exact Or.inr (Or.inl ⟨.script, rfl⟩)
  | offlineFile => exact Or.inr (Or.inl ⟨.offlineFile, rfl⟩)
  | saveFile => exact Or.inr (Or.inl ⟨.saveFile, rfl⟩)

section Names

variable {arg value : CString}

theorem optionNamed_text (o : OptionName) : optionNamed o.text = some o := by
  cases o <;> decide +kernel

theorem OptionName.head_text (o : OptionName) : o.text.bytes.head? = some 0x2d := by
  cases o <;> decide +kernel

theorem eq_text_of_optionNamed {o : OptionName} (h : optionNamed arg = some o) : arg = o.text := by
  simpa using List.find?_some h

theorem optionNamed_of_noDash (h : arg.bytes.head? ≠ some 0x2d) : optionNamed arg = none := by
  rw [Option.eq_none_iff_forall_ne_some]
  intro o ho
  rw [eq_text_of_optionNamed ho] at h
  exact h o.head_text

theorem protocolNamed_text (p : ProtocolType) : protocolNamed p.text = some p := by
  cases p <;> decide +kernel

theorem eq_text_of_protocolNamed {p : ProtocolType} (h : protocolNamed value = some p) :
    value = p.text := by
  simpa using List.find?_some h

end Names

def CommandOptions.room (opts : CommandOptions) : Nat := (opts.filter.map fun f => f.strlen + 1).getD 0

section Pass

variable {m : ParseMemory} (hm : m.Succeeds) (i : Nat) {arg : CString} {opts : CommandOptions}

include hm

theorem parseWord_eq (hroom : opts.room + (arg.strlen + 1) < 2 ^ 31)
    (hdash : arg.bytes.head? ≠ some 0x2d) :
    parseWord m i arg opts = some (.ok ((Item.word arg hdash).apply opts, false)) := by
  rw [parseWord, if_neg hdash, Item.apply]
  cases hfilter : opts.filter with
  | none => simp only [strdup, hm.arg, if_true, joinWord]
  | some filter =>
    simp only [CommandOptions.room, hfilter, Option.map_some, Option.getD_some] at hroom
    have hgrown := growFilter_eq (m.fresh i) (show filter.strlen + arg.strlen + 2 < 2 ^ 31 by omega)
    simp only [hm.arg, hgrown]
    rfl

theorem parseArg_valued (option : Valued) (next : Option CString) :
    parseArg m i option.name.text next opts =
      some (withValue option.name.text next fun value => option.set opts value) := by
  rw [parseArg, optionNamed_text]
  cases option <;> simp only [Valued.name, Valued.set, strdup, hm.arg, if_true]

omit hm in
theorem parseArg_flag (m : ParseMemory) (f : Flag) (next : Option CString) :
    parseArg m i f.name.text next opts = some (.ok (f.set opts, false)) := by
  rw [parseArg, optionNamed_text]
  cases f <;> rfl

omit hm in
theorem parseArg_protocol (m : ParseMemory) (next : Option CString) :
    parseArg m i OptionName.protocol.text next opts =
      some (parseProtocol OptionName.protocol.text next opts) := by
  rw [parseArg, optionNamed_text]

/-- What a pass can do: apply an item made of the argument alone, apply one made of the argument
and the one behind it, or refuse the argument. -/
theorem parseArg_cases (next : Option CString) (hroom : opts.room + (arg.strlen + 1) < 2 ^ 31) :
    (∃ item : Item, item.args = [arg] ∧
      parseArg m i arg next opts = some (.ok (item.apply opts, false))) ∨
    (∃ (item : Item) (value : CString), next = some value ∧ item.args = [arg, value] ∧
      parseArg m i arg next opts = some (.ok (item.apply opts, true))) ∨
    parseArg m i arg next opts = some (.error (invalidText arg)) := by
  cases hnamed : optionNamed arg with
  | none =>
    have hpass : parseArg m i arg next opts = parseWord m i arg opts := by
      rw [parseArg, hnamed]
    rw [hpass]
    by_cases hdash : arg.bytes.head? = some 0x2d
    · exact Or.inr (Or.inr (by rw [parseWord, if_pos hdash]))
    · exact Or.inl ⟨.word arg hdash, rfl, parseWord_eq hm i hroom hdash⟩
  | some o =>
    rw [eq_text_of_optionNamed hnamed]
    rcases o.cases with ⟨f, rfl⟩ | ⟨option, rfl⟩ | rfl
    · exact Or.inl ⟨.flag f, rfl, parseArg_flag i m f next⟩
    · rw [parseArg_valued hm i option]
      cases next with
      | none => exact Or.inr (Or.inr rfl)
      | some value => exact Or.inr (Or.inl ⟨.valued option value, value, rfl, rfl, rfl⟩)
    · rw [parseArg_protocol, parseProtocol]
      cases hprotocol : next.bind protocolNamed with
      | none => exact Or.inr (Or.inr rfl)
      | some p =>
        obtain ⟨value, rfl, hvalue⟩ := Option.bind_eq_some_iff.mp hprotocol
        rw [eq_text_of_protocolNamed hvalue]
        exact Or.inr (Or.inl ⟨.protocol p, p.text, rfl, rfl, rfl⟩)

end Pass

theorem spanOf_cons (arg : CString) (args : List CString) :
    spanOf (arg :: args) = arg.strlen + 1 + spanOf args := rfl

theorem spanOf_append (xs ys : List CString) : spanOf (xs ++ ys) = spanOf xs + spanOf ys := by
  rw [spanOf, List.map_append, List.sum_append]
  rfl

/-- Only a word makes the filter longer, by its own length and a blank. -/
theorem Item.room_apply_le (item : Item) (opts : CommandOptions) :
    (item.apply opts).room ≤ opts.room + spanOf item.args := by
  cases hword : wordOf item with
  | none =>
    rw [CommandOptions.room, Item.filter_apply hword]
    exact Nat.le_add_right _ _
  | some w =>
    cases item with
    | word w hdash =>
      simp only [CommandOptions.room, apply, args, Option.map_some, Option.getD_some, spanOf_cons]
      cases opts.filter with
      | none => simp [joinWord]
      | some filter =>
        simp only [joinWord, CString.strlen_joined, Option.map_some, Option.getD_some]
        omega
    | _ => cases hword

theorem Item.args_ne_nil (item : Item) : item.args ≠ [] := by
  cases item <;> exact List.cons_ne_nil _ _

section Loop

variable {m : ParseMemory} (i : Nat)

theorem parseLoop_cons (m : ParseMemory) (arg : CString) (rest : List CString) (opts : CommandOptions) :
    parseLoop m i (arg :: rest) opts = (parseArg m i arg rest.head? opts).bind fun parsed =>
      match parsed with
      | .error err => some (.error err)
      | .ok (opts, false) => parseLoop m (i + 1) rest opts
      | .ok (opts, true) => parseLoop m (i + 2) rest.tail opts := by
  cases rest with
  | nil =>
    rw [parseLoop, List.head?_nil]
    rcases parseArg m i arg none opts with - | err | ⟨opts, taken⟩
    · rfl
    · rfl
    · cases taken <;> rfl
  | cons next rest =>
    rw [parseLoop, List.head?_cons]
    rfl

variable (hm : m.Succeeds)

include hm

theorem parseLoop_item (item : Item) (rest : List CString) {opts : CommandOptions}
    (hroom : opts.room + spanOf item.args < 2 ^ 31) :
    parseLoop m i (item.args ++ rest) opts =
      parseLoop m (i + item.args.length) rest (item.apply opts) := by
  cases item with
  | flag f =>
    rw [Item.args, List.cons_append, parseLoop_cons, parseArg_flag]
    rfl
  | valued option value =>
    rw [Item.args, List.cons_append, parseLoop_cons, parseArg_valued hm]
    rfl
  | protocol p =>
    rw [Item.args, List.cons_append, parseLoop_cons, parseArg_protocol]
    simp only [List.cons_append, List.nil_append, List.head?_cons, parseProtocol, Option.bind_some,
      protocolNamed_text]
    rfl
  | word w hdash =>
    have hpass : parseArg m i w rest.head? opts = parseWord m i w opts := by
      rw [parseArg, optionNamed_of_noDash hdash]
    rw [Item.args, List.cons_append, parseLoop_cons, List.nil_append, hpass, parseWord_eq hm i hroom hdash]
    rfl

theorem parseLoop_items (items : List Item) {opts : CommandOptions}
    (hroom : opts.room + spanOf (items.flatMap Item.args) < 2 ^ 31) :
    parseLoop m i (items.flatMap Item.args) opts = some (.ok (items.foldl Item.apply opts)) := by
  induction items generalizing i opts with
  | nil => rfl
  | cons item items ih =>
    rw [List.flatMap_cons, spanOf_append] at hroom
    have hle := item.room_apply_le opts
    rw [List.flatMap_cons, parseLoop_item i hm item _ (by omega), ih _ (by omega)]
    rfl

/-- The loop accepts no more than the grammar, and refuses by naming an argument. -/
theorem parseLoop_accepts (args : List CString) {opts : CommandOptions}
    (hroom : opts.room + spanOf args < 2 ^ 31) :
    (∃ items : List Item, args = items.flatMap Item.args) ∨
      ∃ arg ∈ args, parseLoop m i args opts = some (.error (invalidText arg)) := by
  -- A pass takes one argument or two, so the induction is on the number of arguments.
  induction hn : args.length using Nat.strong_induction_on generalizing args opts i with
  | _ n ih =>
    cases args with
    | nil => exact Or.inl ⟨[], rfl⟩
    | cons arg rest =>
      have hbehind (item : Item) (left : List CString) (hargs : arg :: rest = item.args ++ left) :
          (∃ items : List Item, arg :: rest = items.flatMap Item.args) ∨
            ∃ culprit ∈ arg :: rest,
              parseLoop m i (arg :: rest) opts = some (.error (invalidText culprit)) := by
        rw [hargs, List.length_append] at hn
        rw [hargs, spanOf_append] at hroom
        have hpos := List.length_pos_of_ne_nil item.args_ne_nil
        have hle := item.room_apply_le opts
        rw [hargs, parseLoop_item i hm item left (by omega)]
        rcases ih left.length (by omega) (i + item.args.length) left
          (show (item.apply opts).room + spanOf left < 2 ^ 31 by omega) rfl
          with ⟨items, hitems⟩ | ⟨culprit, hculprit, herror⟩
        · exact Or.inl ⟨item :: items, by rw [List.flatMap_cons, hitems]⟩
        · exact Or.inr ⟨culprit, List.mem_append_right _ hculprit, herror⟩
      have hfits : opts.room + (arg.strlen + 1) < 2 ^ 31 := by
        rw [spanOf_cons] at hroom
        omega
      rcases parseArg_cases hm i rest.head? hfits with
        ⟨item, hargs, -⟩ | ⟨item, value, hnext, hargs, -⟩ | hpass
      · exact hbehind item rest (by rw [hargs]; rfl)
      · obtain ⟨left, rfl⟩ := List.head?_eq_some_iff.mp hnext
        exact hbehind item left (by rw [hargs]; rfl)
      · exact Or.inr ⟨arg, List.mem_cons_self, by rw [parseLoop_cons, hpass]; rfl⟩

end Loop

section Meaning

def valueOf (option : Valued) : Item → Option CString
  | .valued option' value => if option' = option then some value else none
  | _ => none

def protocolOf : Item → Option ProtocolType
  | .protocol p => some p
  | _ => none

def lastValue (option : Valued) (items : List Item) : Option CString :=
  (items.filterMap (valueOf option)).getLast?

def lastProtocol (items : List Item) : Option ProtocolType := (items.filterMap protocolOf).getLast?

def filterBytes (items : List Item) : List UInt8 :=
  [0x20].intercalate ((items.filterMap wordOf).map CString.bytes)

/-- Each field but the filter is its last value or its default, and a flag is set if it occurs. -/
structure Reads (items : List Item) (opts : CommandOptions) : Prop where
  dev : opts.dev = some ((lastValue .dev items).getD (CString.literal "any"))
  bufSize : opts.bufSize =
    ((lastValue .bufSize items).map fun value => int32 (atoi value * 1024)).getD (512 * 1024 * 1024)
  threshold : opts.threshold = ((lastValue .threshold items).map atoi).getD 0
  protocol : opts.protocol = (lastProtocol items).getD .raw
  statsPort : opts.statsPort = ((lastValue .statsPort items).map atoi).getD 33333
  snaplen : opts.snaplen = ((lastValue .snaplen items).map atoi).getD 1500
  script : opts.script = lastValue .script items
  offlineFile : opts.offlineFile = lastValue .offlineFile items
  saveFile : opts.saveFile = lastValue .saveFile items
  printVersion : opts.printVersion = true ↔ .flag .version ∈ items
  printUsage : opts.printUsage = true ↔ .flag .usage ∈ items
  ascii : opts.ascii = true ↔ .flag .ascii ∈ items

theorem lastValue_append (option : Valued) (items : List Item) (item : Item) :
    lastValue option (items ++ [item]) = (valueOf option item).or (lastValue option items) := by
  rw [lastValue, lastValue, List.filterMap_append, List.getLast?_append]
  cases hvalue : valueOf option item <;> simp [hvalue]

theorem lastProtocol_append (items : List Item) (item : Item) :
    lastProtocol (items ++ [item]) = (protocolOf item).or (lastProtocol items) := by
  rw [lastProtocol, lastProtocol, List.filterMap_append, List.getLast?_append]
  cases hprotocol : protocolOf item <;> simp [hprotocol]

theorem Reads.start {m : ParseMemory} (hm : m.Succeeds) : Reads [] (initOptions m) := by
  constructor <;> simp [initOptions, strdup, hm.dev, lastValue, lastProtocol]

theorem Reads.apply {items : List Item} {opts : CommandOptions} (h : Reads items opts) (item : Item) :
    Reads (items ++ [item]) (item.apply opts) := by
  obtain ⟨hdev, hbuf, hthreshold, hprotocol, hport, hsnaplen, hscript, hoffline, hsave, hversion, husage,
    hascii⟩ := h
  cases item with
  | flag f =>
    cases f <;> constructor <;>
      simp_all [Item.apply, Flag.set, lastValue_append, lastProtocol_append, valueOf, protocolOf]
  | valued option value =>
    cases option <;> constructor <;>
      simp_all [Item.apply, Valued.set, lastValue_append, lastProtocol_append, valueOf, protocolOf]
  | protocol p =>
    constructor <;> simp_all [Item.apply, lastValue_append, lastProtocol_append, valueOf, protocolOf]
  | word w hdash =>
    constructor <;> simp_all [Item.apply, lastValue_append, lastProtocol_append, valueOf, protocolOf]

theorem Reads.foldl {m : ParseMemory} (hm : m.Succeeds) (items : List Item) :
    Reads items (items.foldl Item.apply (initOptions m)) := by
  induction items using List.reverseRecOn with
  | nil => exact Reads.start hm
  | append_singleton items item ih =>
    rw [List.foldl_append]
    exact ih.apply item

theorem intercalate_concat {α : Type} (sep word : List α) {words : List (List α)} (h : words ≠ []) :
    sep.intercalate (words ++ [word]) = sep.intercalate words ++ (sep ++ word) := by
  induction words with
  | nil => exact absurd rfl h
  | cons first words ih =>
    cases words with
    | nil => simp
    | cons second words =>
      have hrest := ih (List.cons_ne_nil second words)
      rw [List.cons_append, List.cons_append, List.intercalate_cons_cons, List.intercalate_cons_cons,
        ← List.cons_append, hrest]
      simp

theorem filterBytes_append_word (items : List Item) (word : CString) (noDash : word.bytes.head? ≠ some 0x2d)
    (h : items.filterMap wordOf ≠ []) :
    filterBytes (items ++ [.word word noDash]) = filterBytes items ++ 0x20 :: word.bytes := by
  have hwords : (items.filterMap wordOf).map CString.bytes ≠ [] := by simpa using h
  rw [filterBytes, List.filterMap_append, List.map_append]
  exact intercalate_concat [0x20] word.bytes hwords

/-- The filter is missing as long as there was no word, and the words with blanks between them. -/
theorem filter_foldl {opts : CommandOptions} (hopts : opts.filter = none) (items : List Item) :
    (items.foldl Item.apply opts).filter.map CString.bytes =
      if items.filterMap wordOf = [] then none else some (filterBytes items) := by
  induction items using List.reverseRecOn with
  | nil => simp [hopts]
  | append_singleton items item ih =>
    rw [List.foldl_append, List.foldl_cons, List.foldl_nil]
    cases hword : wordOf item with
    | none =>
      rw [Item.filter_apply hword, ih]
      simp [filterBytes, hword]
    | some w =>
      cases item with
      | word w hdash =>
        have hsome : (items ++ [Item.word w hdash]).filterMap wordOf ≠ [] := by simp [wordOf]
        rw [if_neg hsome, Item.apply, Option.map_some]
        congr 1
        by_cases hwords : items.filterMap wordOf = []
        · rw [if_pos hwords, Option.map_eq_none_iff] at ih
          rw [ih, filterBytes, List.filterMap_append, hwords]
          simp [joinWord, wordOf]
        · rw [if_neg hwords, Option.map_eq_some_iff] at ih
          obtain ⟨filter, hfilter, hbytes⟩ := ih
          rw [hfilter, joinWord, CString.joined_bytes, hbytes, filterBytes_append_word items w hdash hwords]
      | _ => cases hword

/-- The options that a command line of these items stands for. -/
structure Describes (items : List Item) (opts : CommandOptions) : Prop extends Reads items opts where
  filter : opts.filter.map CString.bytes = some (filterBytes items)

end Meaning

section Order

theorem Item.apply_comm {a b : Item} (h : a.name ≠ b.name) (opts : CommandOptions) :
    b.apply (a.apply opts) = a.apply (b.apply opts) := by
  cases a with
  | flag f =>
    cases b with
    | flag g => cases f <;> cases g <;> rfl
    | valued option value => cases f <;> cases option <;> rfl
    | protocol p => cases f <;> rfl
    | word w hdash => cases f <;> rfl
  | valued option value =>
    cases b with
    | flag g => cases option <;> cases g <;> rfl
    | valued option' value' => cases option <;> cases option' <;> first | rfl | exact absurd rfl h
    | protocol p => cases option <;> rfl
    | word w hdash => cases option <;> rfl
  | protocol p =>
    cases b with
    | flag g => cases g <;> rfl
    | valued option value => cases option <;> rfl
    | protocol q => exact absurd rfl h
    | word w hdash => rfl
  | word w hdash =>
    cases b with
    | flag g => cases g <;> rfl
    | valued option value => cases option <;> rfl
    | protocol p => rfl
    | word w' hdash' => exact absurd rfl h

theorem foldl_apply_comm {item : Item} {past : List Item} (h : ∀ other ∈ past, item.name ≠ other.name)
    (opts : CommandOptions) :
    past.foldl Item.apply (item.apply opts) = item.apply (past.foldl Item.apply opts) := by
  induction past generalizing opts with
  | nil => rfl
  | cons other past ih =>
    rw [List.foldl_cons, List.foldl_cons, Item.apply_comm (h other List.mem_cons_self)]
    exact ih (fun x hx => h x (List.mem_cons_of_mem other hx)) _

/-- An item can be moved past items of other options. -/
theorem foldl_move {item : Item} {past : List Item} (h : ∀ other ∈ past, item.name ≠ other.name)
    (before after : List Item) (opts : CommandOptions) :
    (before ++ item :: past ++ after).foldl Item.apply opts =
      (before ++ past ++ item :: after).foldl Item.apply opts := by
  simp only [List.foldl_append, List.foldl_cons, foldl_apply_comm h]

end Order

section Options

def CommandOptions.complete (opts : CommandOptions) : CommandOptions :=
  { opts with filter := some (opts.filter.getD (CString.literal "")) }

variable {m : ParseMemory} {argv : ArgVector} {items : List Item}

theorem ArgVector.span_drop_lt (argv : ArgVector) : spanOf (argv.args.drop 1) < 2 ^ 31 := by
  have hspan := spanOf_append (argv.args.take 1) (argv.args.drop 1)
  rw [List.take_append_drop] at hspan
  have hfits := argv.fits
  omega

theorem initOptions_fits (m : ParseMemory) (argv : ArgVector) :
    (initOptions m).room + spanOf (argv.args.drop 1) < 2 ^ 31 := by
  rw [show (initOptions m).room = 0 from rfl, Nat.zero_add]
  exact argv.span_drop_lt

theorem parseOptions_items (hm : m.Succeeds) (h : argv.args.drop 1 = items.flatMap Item.args) :
    parseOptions m argv.args = some (.ok (items.foldl Item.apply (initOptions m)).complete) := by
  have hroom := initOptions_fits m argv
  rw [h] at hroom
  rw [parseOptions, h, parseLoop_items 1 hm items hroom, hm.opts, hm.filter]
  generalize items.foldl Item.apply (initOptions m) = opts
  rw [CommandOptions.complete]
  cases hfilter : opts.filter with
  | none => simp [Except.bind, hfilter, strdup]
  | some filter => simp [Except.bind, hfilter]

theorem describes_complete (hm : m.Succeeds) (items : List Item) :
    Describes items (items.foldl Item.apply (initOptions m)).complete := by
  have hreads := Reads.foldl hm items
  have hfilter := filter_foldl (show (initOptions m).filter = none from rfl) items
  refine ⟨⟨hreads.dev, hreads.bufSize, hreads.threshold, hreads.protocol, hreads.statsPort,
    hreads.snaplen, hreads.script, hreads.offlineFile, hreads.saveFile, hreads.printVersion,
    hreads.printUsage, hreads.ascii⟩, ?_⟩
  rw [CommandOptions.complete, Option.map_some]
  congr 1
  by_cases hwords : items.filterMap wordOf = []
  · rw [if_pos hwords, Option.map_eq_none_iff] at hfilter
    rw [hfilter, filterBytes, hwords]
    decide +kernel
  · rw [if_neg hwords, Option.map_eq_some_iff] at hfilter
    obtain ⟨filter, hfilter, hbytes⟩ := hfilter
    rw [hfilter, Option.getD_some, hbytes]

/-- With enough memory the accepted command lines are the sequences of items; the options are their
last values, flags and words; and an item can be moved past words and items of other options. -/
theorem parseOptions_grammar (m : ParseMemory) (hm : m.Succeeds) :
    (∀ argv : ArgVector, (∃ opts, parseOptions m argv.args = some (.ok opts)) ↔
      ∃ items : List Item, argv.args.drop 1 = items.flatMap Item.args) ∧
    (∀ argv : ArgVector, (¬∃ items : List Item, argv.args.drop 1 = items.flatMap Item.args) →
      ∃ arg ∈ argv.args, parseOptions m argv.args = some (.error (invalidText arg))) ∧
    (∀ (argv : ArgVector) (items : List Item), argv.args.drop 1 = items.flatMap Item.args →
      ∃ opts, parseOptions m argv.args = some (.ok opts) ∧ Describes items opts) ∧
    ∀ (argv argv' : ArgVector) (before past after : List Item) (item : Item),
      argv.args.drop 1 = (before ++ item :: past ++ after).flatMap Item.args →
      argv'.args.drop 1 = (before ++ past ++ item :: after).flatMap Item.args →
      (∀ other ∈ past, item.name ≠ other.name) →
        parseOptions m argv.args = parseOptions m argv'.args := by
  have hrefuses (argv : ArgVector) (hno : ¬∃ items : List Item, argv.args.drop 1 = items.flatMap Item.args) :
      ∃ arg ∈ argv.args, parseOptions m argv.args = some (.error (invalidText arg)) := by
    obtain ⟨arg, harg, herror⟩ :=
      (parseLoop_accepts 1 hm (argv.args.drop 1) (initOptions_fits m argv)).resolve_left hno
    refine ⟨arg, List.mem_of_mem_drop harg, ?_⟩
    rw [parseOptions, hm.opts, herror]
    rfl
  refine ⟨fun argv => ⟨?_, ?_⟩, hrefuses, ?_, ?_⟩
  · rintro ⟨opts, hopts⟩
    by_contra hno
    obtain ⟨arg, -, herror⟩ := hrefuses argv hno
    rw [hopts] at herror
    cases herror
  · rintro ⟨items, hitems⟩
    exact ⟨_, parseOptions_items hm hitems⟩
  · intro argv items hitems
    exact ⟨_, parseOptions_items hm hitems, describes_complete hm items⟩
  · intro argv argv' before past after item hargs hargs' hother
    rw [parseOptions_items hm hargs, parseOptions_items hm hargs', foldl_move hother]

end Options

def plentyOfMemory : ParseMemory := ⟨true, true, fun _ => true, true, fun _ _ => 7⟩

theorem plentyOfMemory_succeeds : plentyOfMemory.Succeeds := ⟨rfl, rfl, fun _ => rfl, rfl⟩

def monitorLine : List CString :=
  [CString.literal "tcpkit", CString.literal "-t", CString.literal "10", CString.literal "tcp",
    CString.literal "-v", CString.literal "port"]

theorem monitorLine_fits : spanOf monitorLine < 2 ^ 31 := by decide +kernel

def monitorArgs : ArgVector := ⟨monitorLine, monitorLine_fits⟩

theorem parseOptions_grammar_monitor :
    ∃ opts, parseOptions plentyOfMemory monitorArgs.args = some (.ok opts) ∧ opts.threshold = 10 ∧
      opts.snaplen = 1500 ∧ opts.printVersion = true ∧ opts.printUsage = false ∧
      opts.filter.map CString.bytes = some (CString.literal "tcp port").bytes := by
  have hitems : monitorArgs.args.drop 1 =
      [Item.valued .threshold (CString.literal "10"), .word (CString.literal "tcp") (by decide +kernel),
        .flag .version, .word (CString.literal "port") (by decide +kernel)].flatMap Item.args := rfl
  obtain ⟨opts, hopts, hreads⟩ :=
    (parseOptions_grammar plentyOfMemory plentyOfMemory_succeeds).2.2.1 monitorArgs _ hitems
  have husage : ¬opts.printUsage = true := by
    rw [hreads.printUsage]
    decide +kernel
  refine ⟨opts, hopts, ?_, hreads.snaplen, hreads.printVersion.mpr ?_,
    Bool.eq_false_of_not_eq_true husage, ?_⟩
  · rw [hreads.threshold]
    decide +kernel
  · decide +kernel
  · rw [hreads.filter]
    decide +kernel

end Tcpkit
