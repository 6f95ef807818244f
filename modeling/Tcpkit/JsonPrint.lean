import Tcpkit.Attempt
import Tcpkit.JsonText

/-! The print buffer of the JSON library and the functions that write an item into it. Every
store is checked against the block the buffer has at that moment, and each call of the
allocator may be refused. -/

namespace Tcpkit

def intMax : Nat := 2147483647

/-- The answers of the allocator, call by call: NULL, or a block together with the bytes that
happen to be found in the part of it that nothing was copied into. -/
abbrev Hooks := Nat → Option (Nat → UInt8)

/-- `calls` counts what was asked of the allocator and `blocks` the blocks held. -/
structure PrintBuffer where
  buffer : Option (List UInt8)
  length : Nat
  offset : Nat
  depth : Nat
  format : Bool
  calls : Nat
  blocks : Nat

/-- A printing function gives up where the source returns false. -/
abbrev Print (α : Type) := Attempt PrintBuffer α

namespace PrintBuffer

/-- `realloc`: the old bytes that fit, and whatever the rest of the new block holds. -/
def grown (fresh : Nat → UInt8) (old : List UInt8) (size : Nat) : List UInt8 :=
  old.take size ++ (List.range (size - old.length)).map fresh

def newSize (needed : Nat) : Option Nat :=
  if needed > intMax / 2 then if needed ≤ intMax then some intMax else none
  else some (needed * 2)

/-- The start of at least `needed` free bytes; where the allocator refuses, the old block is
freed with it. -/
def ensure (hooks : Hooks) (needed : Nat) : Print Nat := fun p =>
  match p.buffer with
  | none => some (none, p)
  | some bytes =>
    if p.length > 0 ∧ p.offset ≥ p.length then some (none, p)
    else if needed > intMax then some (none, p)
    else if needed + (p.offset + 1) ≤ p.length then some (some p.offset, p)
    else match newSize (needed + (p.offset + 1)) with
      | none => some (none, p)
      | some size => match hooks p.calls with
        | none => some (none, { p with
            buffer := none, length := 0, calls := p.calls + 1, blocks := p.blocks - 1 })
        | some fresh => some (some p.offset, { p with
            buffer := some (grown fresh bytes size), length := size, calls := p.calls + 1 })

def store (i : Nat) (b : UInt8) : Print Unit := fun p =>
  p.buffer.bind fun bytes =>
    if i < bytes.length then some (some (), { p with buffer := some (bytes.set i b) }) else none

def storeAll (i : Nat) : List UInt8 → Print Unit
  | [] => pure ()
  | b :: bs => do
    store i b
    storeAll (i + 1) bs

def advance (n : Nat) : Print Unit := Attempt.modify fun p => { p with offset := p.offset + n }

/-- `strlen` from the offset on needs a NUL inside the block. -/
def updateOffset : Print Unit := fun p =>
  match p.buffer with
  | none => some (some (), p)
  | some bytes =>
    if 0 ∈ bytes.drop p.offset then
      advance ((bytes.drop p.offset).takeWhile (fun b => b ≠ 0)).length p
    else none

end PrintBuffer

open PrintBuffer

section Printing

variable (hooks : Hooks)

/-- `bs` stored at the start of the free bytes that are made sure of. -/
def put (needed : Nat) (bs : List UInt8) : Print Unit := do
  let output ← ensure hooks needed
  storeAll output bs

def printConstant (text : CString) : Print Unit := put hooks (text.strlen + 1) (text.bytes ++ [0])

/-- `sprintf` has 26 bytes for the digits and its NUL. -/
def printNumber (d : Nat) : Print Unit := do
  if (numberText d).length > 25 then Attempt.fault
  else do
    put hooks ((numberText d).length + 1) (numberText d ++ [0])
    advance (numberText d).length

def escapeCost (c : UInt8) : Nat :=
  if (escapeLetter c).isSome then 1 else if c < 32 then 5 else 0

def escapeLoop : List UInt8 → Nat → Print Unit
  | [], _ => pure ()
  | c :: input, output =>
    if c > 31 ∧ c ≠ 0x22 ∧ c ≠ 0x5c then do
      store output c
      escapeLoop input (output + 1)
    else do
      store output 0x5c
      match escapeLetter c with
      | some letter => do
        store (output + 1) letter
        escapeLoop input (output + 2)
      | none => do
        -- `sprintf` writes its own NUL, which the next byte replaces
        storeAll (output + 1) (0x75 :: hex4 c ++ [0])
        escapeLoop input (output + 6)

def escapeCharacters (input : CString) : Nat := (input.bytes.map escapeCost).sum

def printStringPtr (input : CString) : Print Unit := do
  let output ← ensure hooks (input.strlen + escapeCharacters input + 3)
  if escapeCharacters input = 0 then
    storeAll output (0x22 :: (input.bytes ++ [0x22, 0]))
  else do
    store output 0x22
    escapeLoop input.bytes (output + 1)
    storeAll (output + (input.strlen + escapeCharacters input + 1)) [0x22, 0]

def deeper : Print Unit := Attempt.modify fun p => { p with depth := p.depth + 1 }

def shallower : Print Unit := Attempt.modify fun p => { p with depth := p.depth - 1 }

/-- The comma between two elements, in front of `items`. -/
def printSeparator (items : List (JsonItem Nat)) : Print Unit :=
  if items = [] then pure ()
  else do
    let p ← Attempt.get
    put hooks ((separator p.format).length + 1) (separator p.format ++ [0])
    advance (separator p.format).length

def printIndent : Print Unit := do
  let p ← Attempt.get
  if p.format then do
    put hooks p.depth (tabs p.format p.depth)
    advance p.depth
  else pure ()

def printColon : Print Unit := do
  let p ← Attempt.get
  put hooks (colon p.format).length (colon p.format)
  advance (colon p.format).length

def printMemberEnd (members : List (CString × JsonItem Nat)) : Print Unit := do
  let p ← Attempt.get
  put hooks ((memberEnd p.format members).length + 1) (memberEnd p.format members ++ [0])
  advance (memberEnd p.format members).length

def openObject : Print Unit := do
  let p ← Attempt.get
  put hooks ((lineEnd p.format).length + 2) (0x7b :: lineEnd p.format)
  advance ((lineEnd p.format).length + 1)
  deeper

def closeObject : Print Unit := do
  let p ← Attempt.get
  put hooks (if p.format then p.depth + 1 else 2) (tabs p.format (p.depth - 1) ++ [0x7d, 0])
  shallower

mutual

def printValue : JsonItem Nat → Print Unit
  | .null => printConstant hooks (CString.literal "null")
  | .bool false => printConstant hooks (CString.literal "false")
  | .bool true => printConstant hooks (CString.literal "true")
  | .number d => printNumber hooks d
  | .string s => printStringPtr hooks s
  | .array items => do
    put hooks 1 [0x5b]
    advance 1
    deeper
    printElements items
    put hooks 2 [0x5d, 0]
    shallower
  | .object members => do
    openObject hooks
    printMembers members
    closeObject hooks

def printElements : List (JsonItem Nat) → Print Unit
  | [] => pure ()
  | item :: items => do
    printValue item
    updateOffset
    printSeparator hooks items
    printElements items

def printMembers : List (CString × JsonItem Nat) → Print Unit
  | [] => pure ()
  | (key, item) :: members => do
    printIndent hooks
    printStringPtr hooks key
    updateOffset
    printColon hooks
    printValue item
    updateOffset
    printMemberEnd hooks members
    printMembers members

end

/-- What `print` leaves: the block it returns, or NULL, with the calls made and the blocks held. -/
structure Printed where
  block : Option (List UInt8)
  calls : Nat
  blocks : Nat

/-- `fail:` frees the buffer where there still is one. -/
def printFail (p : PrintBuffer) : Printed :=
  ⟨none, p.calls, if p.buffer.isSome then p.blocks - 1 else p.blocks⟩

/-- `print`: a buffer of 256 bytes, the value, and the block cut to the length of the text. -/
def print (item : JsonItem Nat) (format : Bool) : Access Printed :=
  match hooks 0 with
  | none => some ⟨none, 1, 0⟩
  | some fresh =>
    ((printValue hooks item >>= fun _ => updateOffset : Print Unit)
      ⟨some ((List.range 256).map fresh), 256, 0, 0, format, 1, 1⟩).bind fun r =>
      match r.1, r.2.buffer with
      | some _, some bytes => match hooks r.2.calls with
        | none => some (printFail { r.2 with calls := r.2.calls + 1 })
        | some fresh => some ⟨some (grown fresh bytes (r.2.offset + 1)), r.2.calls + 1, r.2.blocks⟩
      | some _, none => some (printFail r.2)
      | none, _ => some (printFail r.2)

def cJsonPrint (item : JsonItem Nat) : Access Printed := print hooks item true

end Printing

/-- `text` has been printed at depth `d`, `behind` is the rest of the block, and every call of
the allocator so far was answered. -/
structure Reached (hooks : Hooks) (format : Bool) (d : Nat) (text behind : List UInt8)
    (p : PrintBuffer) : Prop where
  buffer : p.buffer = some (text ++ behind)
  length : p.length = (text ++ behind).length
  offset : p.offset = text.length
  room : behind ≠ []
  limit : p.length ≤ intMax
  blocks : p.blocks = 1
  depth : p.depth = d
  format : p.format = format
  answered : ∀ k < p.calls, hooks k ≠ none

/-- Printing has stopped because a call was refused or the text of `n` bytes is too long. -/
structure Refused (hooks : Hooks) (n : Nat) (p : PrintBuffer) : Prop where
  blocks : p.blocks = if p.buffer.isSome then 1 else 0
  cause : (∃ k < p.calls, hooks k = none) ∨ intMax < n

theorem Refused.mono {hooks : Hooks} {m n : Nat} {p : PrintBuffer} (h : Refused hooks m p)
    (hle : m ≤ n) : Refused hooks n p :=
  ⟨h.blocks, h.cause.imp_right fun hm => hm.trans_le hle⟩

section Rules

variable {hooks : Hooks} {format : Bool} {d n needed : Nat} {text behind bs : List UInt8}
  {p : PrintBuffer}

theorem length_grown {fresh : Nat → UInt8} {old : List UInt8} {size : Nat} (h : old.length ≤ size) :
    (grown fresh old size).length = size := by
  simp [grown]
  omega

theorem newSize_eq {needed : Nat} (h : needed ≤ intMax) :
    ∃ size, newSize needed = some size ∧ needed ≤ size ∧ size ≤ intMax := by
  unfold newSize
  have hhalf : intMax / 2 = 1073741823 := rfl
  have hmax : intMax = 2147483647 := rfl
  split_ifs with h1
  · exact ⟨_, rfl, h, le_refl _⟩
  · exact ⟨_, rfl, by omega, by omega⟩

theorem newSize_none {needed : Nat} (h : intMax < needed) : newSize needed = none := by
  have hhalf : intMax / 2 ≤ intMax := Nat.div_le_self _ _
  rw [newSize, if_pos (by omega), if_neg (by omega)]

/-- Either there is room for what is needed and one byte more, or printing stops. -/
theorem gives_ensure (h : Reached hooks format d text behind p) (needed : Nat) :
    (ensure hooks needed).Gives p
      (fun i p' => i = text.length ∧ ∃ behind', needed + 1 ≤ behind'.length ∧
        Reached hooks format d text behind' p')
      (Refused hooks (text.length + needed + 1)) := by
  have hroom : 0 < behind.length := List.length_pos_iff.mpr h.room
  have hlen : p.length = text.length + behind.length := by simpa using h.length
  have hblocks : p.blocks = if p.buffer.isSome then 1 else 0 := by simp [h.buffer, h.blocks]
  have hoff := h.offset
  have hlim := h.limit
  unfold ensure
  by_cases hbig : needed > intMax
  · refine Attempt.Gives.refusal (t := p) ?_ ⟨hblocks, .inr (by omega)⟩
    simp [h.buffer, hbig]
  by_cases hfit : needed + (p.offset + 1) ≤ p.length
  · refine Attempt.Gives.value (a := p.offset) (t := p) ?_ ⟨hoff, behind, by omega, h⟩
    simp only [h.buffer]
    rw [if_neg (by omega), if_neg hbig, if_pos hfit]
  by_cases hmax : needed + (p.offset + 1) ≤ intMax
  · obtain ⟨size, hsize, hge, hle⟩ := newSize_eq hmax
    cases hans : hooks p.calls with
    | none =>
      refine Attempt.Gives.refusal (t := { p with
        buffer := none, length := 0, calls := p.calls + 1, blocks := p.blocks - 1 }) ?_
        ⟨by simp [h.blocks], .inl ⟨p.calls, Nat.lt_succ_self _, hans⟩⟩
      simp only [h.buffer]
      rw [if_neg (by omega), if_neg hbig, if_neg hfit, hsize]
      simp only [hans]
    | some fresh =>
      have hold : (text ++ behind).length ≤ size := by simp; omega
      have hgrown : grown fresh (text ++ behind) size =
          text ++ (behind ++ (List.range (size - (text ++ behind).length)).map fresh) := by
        rw [grown, List.take_of_length_le hold, List.append_assoc]
      refine Attempt.Gives.value (a := p.offset) (t := { p with
        buffer := some (grown fresh (text ++ behind) size), length := size, calls := p.calls + 1 }) ?_
        ⟨hoff, behind ++ (List.range (size - (text ++ behind).length)).map fresh, ?_, ?_⟩
      · simp only [h.buffer]
        rw [if_neg (by omega), if_neg hbig, if_neg hfit, hsize]
        simp only [hans]
      · simp
        omega
      · constructor
        · exact congrArg some hgrown
        · rw [← hgrown, length_grown hold]
        · exact h.offset
        · simp [h.room]
        · exact hle
        · exact h.blocks
        · exact h.depth
        · exact h.format
        · intro k hk
          rcases Nat.lt_succ_iff_lt_or_eq.mp hk with hk | rfl
          · exact h.answered k hk
          · simp [hans]
  · refine Attempt.Gives.refusal (t := p) ?_ ⟨hblocks, .inr (by omega)⟩
    simp only [h.buffer]
    rw [if_neg (by omega), if_neg hbig, if_neg hfit, newSize_none (by omega)]

theorem gives_store (bad : PrintBuffer → Prop) {a c : List UInt8} {b x : UInt8}
    (h : Reached hooks format d text (a ++ b :: c) p) :
    (store (text.length + a.length) x).Gives p
      (fun _ => Reached hooks format d text (a ++ x :: c)) bad := by
  have hset : (text ++ (a ++ b :: c)).set (text.length + a.length) x = text ++ (a ++ x :: c) := by
    rw [← List.append_assoc, ← List.append_assoc, ← List.length_append, List.set_append_right _ _ (le_refl _),
      Nat.sub_self, List.set_cons_zero]
  refine Attempt.Gives.value (a := ()) (t := { p with buffer := some (text ++ (a ++ x :: c)) }) ?_ ?_
  · unfold store
    rw [h.buffer, Option.bind_some, if_pos (by simp), hset]
  · constructor
    · rfl
    · simpa using h.length
    · exact h.offset
    · simp
    · exact h.limit
    · exact h.blocks
    · exact h.depth
    · exact h.format
    · exact h.answered

/-- The bytes `bs` stored where `a` ends, in front of what of `c` they leave. -/
theorem gives_storeAll (bad : PrintBuffer → Prop) (bs : List UInt8) (a c : List UInt8) {p : PrintBuffer}
    (h : Reached hooks format d text (a ++ c) p) (hle : bs.length ≤ c.length) :
    (storeAll (text.length + a.length) bs).Gives p
      (fun _ => Reached hooks format d text (a ++ (bs ++ c.drop bs.length))) bad := by
  induction bs generalizing a c p with
  | nil => exact Attempt.gives_pure h
  | cons b bs ih =>
    cases c with
    | nil => simp at hle
    | cons b' c =>
      refine (gives_store _ h).bind fun _ p' h' => ?_
      have hstep := ih (a ++ [b]) c (p := p') (by simpa using h') (by simpa using hle)
      simpa [Nat.add_assoc] using hstep

theorem gives_storeHere {bad : PrintBuffer → Prop} (bs : List UInt8)
    (h : Reached hooks format d text behind p) (hle : bs.length ≤ behind.length) :
    (storeAll text.length bs).Gives p
      (fun _ => Reached hooks format d text (bs ++ behind.drop bs.length)) bad :=
  gives_storeAll _ bs [] behind h hle

theorem gives_advance (kept : List UInt8) {rest : List UInt8} {bad : PrintBuffer → Prop}
    (h : Reached hooks format d text (kept ++ rest) p) (hrest : rest ≠ []) :
    (advance kept.length).Gives p (fun _ => Reached hooks format d (text ++ kept) rest) bad := by
  apply Attempt.gives_modify
  constructor
  · simpa using h.buffer
  · simpa using h.length
  · simp [h.offset]
  · exact hrest
  · exact h.limit
  · exact h.blocks
  · exact h.depth
  · exact h.format
  · exact h.answered

theorem gives_updateOffset {b rest : List UInt8} {bad : PrintBuffer → Prop}
    (h : Reached hooks format d text (b ++ 0 :: rest) p) (hb : 0 ∉ b) :
    updateOffset.Gives p (fun _ => Reached hooks format d (text ++ b) (0 :: rest)) bad := by
  have hdrop : (text ++ (b ++ 0 :: rest)).drop p.offset = b ++ 0 :: rest := by
    rw [h.offset, List.drop_left]
  have hlen : (b ++ 0 :: rest).takeWhile (fun c => decide (c ≠ 0)) = b := takeWhile_ne_append hb (by simp)
  obtain ⟨r, p', hrun, hr⟩ : (advance b.length).Gives p
      (fun _ => Reached hooks format d (text ++ b) (0 :: rest)) bad := gives_advance b h (by simp)
  refine ⟨r, p', ?_, hr⟩
  unfold updateOffset
  simp only [h.buffer]
  rw [hdrop, if_pos (by simp), hlen, hrun]

theorem gives_deeper {bad : PrintBuffer → Prop} (h : Reached hooks format d text behind p) :
    deeper.Gives p (fun _ => Reached hooks format (d + 1) text behind) bad := by
  apply Attempt.gives_modify
  exact { h with depth := congrArg (· + 1) h.depth }

theorem gives_shallower {bad : PrintBuffer → Prop} (h : Reached hooks format (d + 1) text behind p) :
    shallower.Gives p (fun _ => Reached hooks format d text behind) bad := by
  apply Attempt.gives_modify
  exact { h with depth := by simp [h.depth] }

end Rules

/-- `t` stands behind the text, its end perhaps still in front of the offset, with its NUL
and one byte more. -/
def Written (hooks : Hooks) (format : Bool) (d : Nat) (text t : List UInt8) (p : PrintBuffer) : Prop :=
  ∃ a b rest, t = a ++ b ∧ 0 ∉ b ∧ rest ≠ [] ∧
    Reached hooks format d (text ++ a) (b ++ 0 :: rest) p

section Pieces

variable {hooks : Hooks} {format : Bool} {d n needed : Nat} {text behind bs t : List UInt8}
  {p : PrintBuffer}

theorem gives_put (bs : List UInt8) (h : Reached hooks format d text behind p) (hle : bs.length ≤ needed)
    (hn : text.length + needed + 1 ≤ n) :
    (put hooks needed bs).Gives p
      (fun _ p' => ∃ rest, rest ≠ [] ∧ Reached hooks format d text (bs ++ rest) p') (Refused hooks n) := by
  refine ((gives_ensure h needed).mono (fun _ _ hok => hok) fun _ hbad => hbad.mono hn).bind
    fun i p' hok => ?_
  obtain ⟨rfl, behind', hlen, h'⟩ := hok
  refine (gives_storeHere bs h' (by omega)).mono (fun _ p'' h'' => ⟨_, ?_, h''⟩) fun _ hbad => hbad
  rw [← List.length_pos_iff, List.length_drop]
  omega

theorem gives_putAdvance {kept stay : List UInt8} (h : Reached hooks format d text behind p)
    (hle : (kept ++ stay).length ≤ needed) (hn : text.length + needed + 1 ≤ n) :
    (put hooks needed (kept ++ stay) >>= fun _ => advance kept.length : Print Unit).Gives p
      (fun _ p' => ∃ rest, rest ≠ [] ∧ Reached hooks format d (text ++ kept) (stay ++ rest) p')
      (Refused hooks n) := by
  refine (gives_put _ h hle hn).bind fun _ p' hok => ?_
  obtain ⟨rest, hrest, h'⟩ := hok
  rw [List.append_assoc] at h'
  exact (gives_advance _ h' (by simp [hrest])).mono (fun _ p'' h'' => ⟨rest, hrest, h''⟩) fun _ hbad => hbad

theorem gives_printConstant {c : CString} (h : Reached hooks format d text behind p)
    (hn : text.length + c.bytes.length + 2 ≤ n) :
    (printConstant hooks c).Gives p (fun _ => Written hooks format d text c.bytes) (Refused hooks n) := by
  refine (gives_put _ h (by simp [CString.strlen]) (by simp only [CString.strlen]; omega)).mono
    (fun _ p' hok => ?_) fun _ hbad => hbad
  obtain ⟨rest, hrest, h'⟩ := hok
  refine ⟨[], c.bytes, rest, rfl, c.noNul, hrest, ?_⟩
  simpa using h'

theorem gives_printNumber {v : Nat} (hv : v < 2 ^ 1024) (h : Reached hooks format d text behind p)
    (hn : text.length + (numberText v).length + 2 ≤ n) :
    (printNumber hooks v).Gives p (fun _ => Written hooks format d text (numberText v))
      (Refused hooks n) := by
  have hlen := length_numberText_le hv
  rw [printNumber, if_neg (by omega)]
  refine (gives_putAdvance h (by simp) (by omega)).mono (fun _ p' hok => ?_) fun _ hbad => hbad
  obtain ⟨rest, hrest, h'⟩ := hok
  exact ⟨numberText v, [], rest, by simp, by simp, hrest, by simpa using h'⟩

theorem length_escaped (c : UInt8) : (escaped c).length = 1 + escapeCost c := by
  unfold escaped escapeCost
  cases escapeLetter c with
  | some letter => rfl
  | none =>
    by_cases h : c < 32
    · simp [h, hex4]
    · simp [h]

theorem length_flatMap_escaped (input : List UInt8) :
    (input.flatMap escaped).length = input.length + (input.map escapeCost).sum := by
  induction input with
  | nil => rfl
  | cons c input ih =>
    simp only [List.flatMap_cons, List.length_append, length_escaped, ih, List.length_cons, List.map_cons,
      List.sum_cons]
    omega

theorem escaped_of_plain {c : UInt8} (h : escapeCost c = 0) : escaped c = [c] := by
  unfold escapeCost at h
  unfold escaped
  cases hl : escapeLetter c with
  | some letter => simp [hl] at h
  | none =>
    have hc : ¬c < 32 := by
      intro hc
      simp [hl, hc] at h
    simp [hc]

theorem flatMap_escaped_of_plain {input : List UInt8} (h : (input.map escapeCost).sum = 0) :
    input.flatMap escaped = input := by
  induction input with
  | nil => rfl
  | cons c input ih =>
    rw [List.map_cons, List.sum_cons] at h
    rw [List.flatMap_cons, escaped_of_plain (by omega), ih (by omega), List.singleton_append]

/-- The test of the loop and that of the count agree on which bytes stand for themselves. -/
theorem plain_iff (c : UInt8) : (c > 31 ∧ c ≠ 0x22 ∧ c ≠ 0x5c) ↔ escapeLetter c = none ∧ ¬c < 32 := by
  have h : ∀ n < 256, (UInt8.ofNat n > 31 ∧ UInt8.ofNat n ≠ 0x22 ∧ UInt8.ofNat n ≠ 0x5c) ↔
      escapeLetter (UInt8.ofNat n) = none ∧ ¬UInt8.ofNat n < 32 := by decide +kernel
  simpa using h c.toNat c.toNat_lt

theorem gives_escapeLoop {bad : PrintBuffer → Prop} (input a c : List UInt8) {p : PrintBuffer}
    (h : Reached hooks format d text (a ++ c) p) (hle : (input.flatMap escaped).length < c.length) :
    (escapeLoop input (text.length + a.length)).Gives p
      (fun _ p' => ∃ c', c'.length + (input.flatMap escaped).length = c.length ∧
        Reached hooks format d text (a ++ (input.flatMap escaped ++ c')) p') bad := by
  induction input generalizing a c p with
  | nil => exact Attempt.gives_pure ⟨c, by simp, h⟩
  | cons x input ih =>
    have hsplit : ((x :: input).flatMap escaped).length =
        (escaped x).length + (input.flatMap escaped).length := by simp
    -- one byte is stored as `e`, the rest of the input goes behind it
    have hrest {e : List UInt8} (c' : List UInt8) {p' : PrintBuffer} (he : escaped x = e)
        (h' : Reached hooks format d text (a ++ e ++ c') p') (hc : c'.length + e.length = c.length) :
        (escapeLoop input (text.length + a.length + e.length)).Gives p'
          (fun _ p'' => ∃ c'', c''.length + ((x :: input).flatMap escaped).length = c.length ∧
            Reached hooks format d text (a ++ ((x :: input).flatMap escaped ++ c'')) p'') bad := by
      subst he
      have hnext := ih (a ++ escaped x) c' h' (by omega)
      rw [List.length_append, ← Nat.add_assoc] at hnext
      refine hnext.mono (fun _ p'' hok => ?_) fun _ hbad => hbad
      obtain ⟨c'', hlen, h''⟩ := hok
      exact ⟨c'', by omega, by simpa using h''⟩
    cases c with
    | nil => simp at hle
    | cons c0 c =>
      by_cases hp : x > 31 ∧ x ≠ 0x22 ∧ x ≠ 0x5c
      · obtain ⟨hl, hx⟩ := (plain_iff x).mp hp
        have he : escaped x = [x] := by simp [escaped, hl, hx]
        rw [escapeLoop, if_pos hp]
        refine (gives_store _ h).bind fun _ p' h' => ?_
        exact hrest c he (by simpa using h') (by simp)
      · rw [escapeLoop, if_neg hp]
        refine (gives_store _ h).bind fun _ p' h' => ?_
        cases hl : escapeLetter x with
        | some letter =>
          have he : escaped x = [0x5c, letter] := by simp [escaped, hl]
          cases c with
          | nil => simp [he] at hle
          | cons c1 c =>
            have h1 := gives_store bad (a := a ++ [0x5c]) (b := c1) (x := letter) (c := c) (p := p')
              (by simpa using h')
            rw [List.length_append, ← Nat.add_assoc] at h1
            refine h1.bind fun _ p'' h'' => ?_
            exact hrest c he (by simpa using h'') (by simp)
        | none =>
          have hx : x < 32 := by
            by_contra hx
            exact hp ((plain_iff x).mpr ⟨hl, hx⟩)
          have he : escaped x = 0x5c :: 0x75 :: hex4 x := by simp [escaped, hl, hx]
          have hlen6 : (escaped x).length = 6 := by simp [he, hex4]
          have hroom : 6 ≤ c.length := by
            rw [hsplit, List.length_cons] at hle
            omega
          have h1 := gives_storeAll bad (0x75 :: hex4 x ++ [0]) (a ++ [0x5c]) c (p := p')
            (by simpa using h') (by simpa [hex4] using hroom)
          rw [List.length_append, ← Nat.add_assoc] at h1
          refine h1.bind fun _ p'' h'' => ?_
          refine hrest (0 :: c.drop 6) he (by simpa [hex4] using h'') ?_
          simp [hex4]
          omega

theorem gives_printStringPtr {input : CString} (h : Reached hooks format d text behind p)
    (hn : text.length + (quoted input).length + 2 ≤ n) :
    (printStringPtr hooks input).Gives p
      (fun _ p' => ∃ rest, rest ≠ [] ∧ Reached hooks format d text (quoted input ++ 0 :: rest) p')
      (Refused hooks n) := by
  have hlen : (input.bytes.flatMap escaped).length = input.strlen + escapeCharacters input :=
    length_flatMap_escaped input.bytes
  have hquoted : (quoted input).length = input.strlen + escapeCharacters input + 2 := by
    simp [quoted, ← hlen]
  refine ((gives_ensure h _).mono (fun _ _ hok => hok) fun _ hbad => hbad.mono (by omega)).bind
    fun i p' hok => ?_
  obtain ⟨rfl, behind', hroom, h'⟩ := hok
  by_cases hplain : escapeCharacters input = 0
  · rw [if_pos hplain]
    refine (gives_storeHere _ h' (by simp; unfold CString.strlen at hroom; omega)).mono
      (fun _ p'' h'' => ⟨behind'.drop (input.strlen + 3), ?_, ?_⟩) fun _ hbad => hbad
    · rw [← List.length_pos_iff, List.length_drop]
      omega
    · have hq : quoted input = 0x22 :: (input.bytes ++ [0x22]) := by
        rw [quoted, flatMap_escaped_of_plain hplain]
      rw [hq]
      simpa [CString.strlen] using h''
  · rw [if_neg hplain]
    cases behind' with
    | nil => simp at hroom
    | cons b0 behind' =>
      rw [List.length_cons] at hroom
      refine (gives_store _ (a := []) h').bind fun _ p1 h1 => ?_
      refine (gives_escapeLoop input.bytes [0x22] behind' h1 (by omega)).bind fun _ p2 hok => ?_
      obtain ⟨c', hc', h2⟩ := hok
      have hstore := gives_storeAll (Refused hooks n) [0x22, 0] (0x22 :: input.bytes.flatMap escaped) c'
        (p := p2) (by simpa using h2) (by simp; omega)
      rw [List.length_cons, hlen] at hstore
      refine hstore.mono (fun _ p3 h3 => ⟨c'.drop 2, ?_, ?_⟩) fun _ hbad => hbad
      · rw [← List.length_pos_iff, List.length_drop]
        omega
      · simpa [quoted] using h3

theorem gives_updated {bad : PrintBuffer → Prop} (h : Written hooks format d text t p) :
    updateOffset.Gives p
      (fun _ p' => ∃ rest, rest ≠ [] ∧ Reached hooks format d (text ++ t) (0 :: rest) p') bad := by
  obtain ⟨a, b, rest, rfl, hb, hrest, h'⟩ := h
  refine (gives_updateOffset h' hb).mono (fun _ p' h'' => ⟨rest, hrest, ?_⟩) fun _ hbad => hbad
  rwa [List.append_assoc] at h''

theorem zero_notMem_quoted (s : CString) : 0 ∉ quoted s := by
  have hbyte : ∀ n < 256, UInt8.ofNat n ≠ 0 → 0 ∉ escaped (UInt8.ofNat n) := by decide +kernel
  intro h
  simp only [quoted, List.mem_cons, List.mem_append, List.mem_flatMap] at h
  rcases h with h | ⟨c, hc, h⟩ | h | h
  · exact absurd h (by decide)
  · refine hbyte c.toNat c.toNat_lt ?_ (by simpa using h)
    rintro h0
    exact s.noNul (by simpa [← h0] using hc)
  · exact absurd h (by decide)
  · cases h

end Pieces

mutual

/-- Every number of the item is a double. -/
def JsonItem.Finite : JsonItem Nat → Prop
  | .number v => v < 2 ^ 1024
  | .array items => FiniteElements items
  | .object members => FiniteMembers members
  | _ => True

def FiniteElements : List (JsonItem Nat) → Prop
  | [] => True
  | item :: items => item.Finite ∧ FiniteElements items

def FiniteMembers : List (CString × JsonItem Nat) → Prop
  | [] => True
  | (_, item) :: members => item.Finite ∧ FiniteMembers members

end

section Values

variable {hooks : Hooks} {format : Bool} {d n : Nat} {text behind t u : List UInt8} {p : PrintBuffer}
  {m m' : Print Unit}

/-- The bytes `t` are printed and the offset is behind them. -/
def Appends (hooks : Hooks) (format : Bool) (d n : Nat) (text t : List UInt8) (m : Print Unit)
    (p : PrintBuffer) : Prop :=
  m.Gives p (fun _ p' => ∃ rest, Reached hooks format d (text ++ t) rest p') (Refused hooks n)

theorem Appends.seq (h : Appends hooks format d n text t m p)
    (h' : ∀ rest p', Reached hooks format d (text ++ t) rest p' →
      Appends hooks format d n (text ++ t) u m' p') :
    Appends hooks format d n text (t ++ u) (m >>= fun _ => m') p := by
  refine Attempt.Gives.bind h fun _ p' hok => ?_
  obtain ⟨rest, hr⟩ := hok
  have hnext := h' rest p' hr
  rwa [Appends, List.append_assoc] at hnext

theorem Appends.afterWritten (h : m.Gives p (fun _ => Written hooks format d text t) (Refused hooks n))
    (h' : ∀ rest p', Reached hooks format d (text ++ t) rest p' →
      Appends hooks format d n (text ++ t) u m' p') :
    Appends hooks format d n text (t ++ u) (m >>= fun _ => updateOffset >>= fun _ => m') p := by
  refine Attempt.Gives.bind h fun _ p' hw => ?_
  refine (gives_updated hw).bind fun _ p'' hok => ?_
  obtain ⟨rest, -, hr⟩ := hok
  have hnext := h' _ p'' hr
  rwa [Appends, List.append_assoc] at hnext

theorem gives_get {bad : PrintBuffer → Prop} (h : Reached hooks format d text behind p) :
    (Attempt.get : Print PrintBuffer).Gives p
      (fun q p' => q.format = format ∧ q.depth = d ∧ Reached hooks format d text behind p') bad :=
  Attempt.Gives.value rfl ⟨h.format, h.depth, h⟩

theorem appends_put (needed : Nat) (kept stay : List UInt8) (h : Reached hooks format d text behind p)
    (hle : (kept ++ stay).length ≤ needed) (hn : text.length + needed + 1 ≤ n) :
    Appends hooks format d n text kept
      (put hooks needed (kept ++ stay) >>= fun _ => advance kept.length) p :=
  (gives_putAdvance h hle hn).mono (fun _ _ ⟨_, hr⟩ => ⟨_, hr.2⟩) fun _ hbad => hbad

theorem appends_printSeparator {items : List (JsonItem Nat)} (h : Reached hooks format d text behind p)
    (hn : text.length + (if items = [] then [] else separator format).length + 2 ≤ n) :
    Appends hooks format d n text (if items = [] then [] else separator format)
      (printSeparator hooks items) p := by
  unfold printSeparator
  by_cases hlast : items = []
  · rw [if_pos hlast, if_pos hlast]
    exact Attempt.gives_pure ⟨behind, by simpa using h⟩
  · rw [if_neg hlast] at hn ⊢
    rw [if_neg hlast]
    refine (gives_get h).bind fun q p' hq => ?_
    obtain ⟨rfl, -, h'⟩ := hq
    exact appends_put _ _ _ h' (by simp) (by omega)

theorem appends_printIndent (h : Reached hooks format d text behind p)
    (hn : text.length + (tabs format d).length + 2 ≤ n) :
    Appends hooks format d n text (tabs format d) (printIndent hooks) p := by
  refine (gives_get h).bind fun q p' hq => ?_
  obtain ⟨hformat, hdepth, h'⟩ := hq
  cases format with
  | false =>
    rw [hformat, if_neg (by simp)]
    exact Attempt.gives_pure ⟨behind, by simpa [tabs] using h'⟩
  | true =>
    have hlen : (tabs true d).length = d := by simp [tabs]
    rw [hformat, hdepth, if_pos rfl]
    have hput := appends_put d (tabs true d) [] h'
      (by simp [hlen]) (n := n) (by omega)
    rwa [List.append_nil, hlen] at hput

theorem appends_printColon (h : Reached hooks format d text behind p)
    (hn : text.length + (colon format).length + 2 ≤ n) :
    Appends hooks format d n text (colon format) (printColon hooks) p := by
  refine (gives_get h).bind fun q p' hq => ?_
  obtain ⟨rfl, -, h'⟩ := hq
  have hput := appends_put (colon q.format).length (colon q.format) [] h'
    (by simp) (n := n) (by omega)
  rwa [List.append_nil] at hput

theorem appends_printMemberEnd {members : List (CString × JsonItem Nat)}
    (h : Reached hooks format d text behind p)
    (hn : text.length + (memberEnd format members).length + 2 ≤ n) :
    Appends hooks format d n text (memberEnd format members) (printMemberEnd hooks members) p := by
  refine (gives_get h).bind fun q p' hq => ?_
  obtain ⟨rfl, -, h'⟩ := hq
  exact appends_put _ _ _ h' (by simp) (by omega)

theorem gives_openObject (h : Reached hooks format d text behind p)
    (hn : text.length + (0x7b :: lineEnd format).length + 2 ≤ n) :
    Appends hooks format (d + 1) n text (0x7b :: lineEnd format) (openObject hooks) p := by
  refine (gives_get h).bind fun q p' hq => ?_
  obtain ⟨rfl, -, h'⟩ := hq
  rw [List.length_cons] at hn
  refine (gives_put _ h' (by simp) (by omega)).bind fun _ p1 hok => ?_
  obtain ⟨rest, hrest, h1⟩ := hok
  refine (gives_advance _ h1 hrest).bind fun _ p2 h2 => ?_
  exact (gives_deeper h2).mono (fun _ _ h3 => ⟨rest, h3⟩) fun _ hbad => hbad

theorem gives_closeObject (h : Reached hooks format (d + 1) text behind p)
    (hn : text.length + (tabs format d ++ [0x7d]).length + 2 ≤ n) :
    (closeObject hooks).Gives p (fun _ => Written hooks format d text (tabs format d ++ [0x7d]))
      (Refused hooks n) := by
  refine (gives_get h).bind fun q p' hq => ?_
  obtain ⟨rfl, hdepth, h'⟩ := hq
  have hzero : 0 ∉ tabs q.format d ++ [0x7d] := by
    unfold tabs
    split_ifs <;> simp [List.mem_replicate]
  have hfits : (tabs q.format (q.depth - 1) ++ [0x7d, 0]).length ≤ if q.format then q.depth + 1 else 2 := by
    rw [hdepth]
    unfold tabs
    split_ifs <;> simp
  have hbound : text.length + (if q.format then q.depth + 1 else 2) + 1 ≤ n := by
    rw [hdepth]
    unfold tabs at hn
    split_ifs at hn ⊢ <;> simp at hn <;> omega
  refine (gives_put _ h' hfits hbound).bind fun _ p1 hok => ?_
  obtain ⟨rest, hrest, h1⟩ := hok
  refine (gives_shallower h1).mono (fun _ p2 h2 => ?_) fun _ hbad => hbad
  refine ⟨[], tabs q.format d ++ [0x7d], rest, rfl, hzero, hrest, ?_⟩
  rw [hdepth] at h2
  simpa using h2

mutual

theorem gives_printValue : ∀ (item : JsonItem Nat) (d n : Nat) (text behind : List UInt8) (p : PrintBuffer),
    item.Finite → Reached hooks format d text behind p →
    text.length + (item.text format d).length + 2 ≤ n →
    (printValue hooks item).Gives p (fun _ => Written hooks format d text (item.text format d))
      (Refused hooks n)
  | .null, d, n, text, behind, p, _, h, hn => gives_printConstant h hn
  | .bool false, d, n, text, behind, p, _, h, hn => gives_printConstant h hn
  | .bool true, d, n, text, behind, p, _, h, hn => gives_printConstant h hn
  | .number v, d, n, text, behind, p, hf, h, hn => gives_printNumber hf h hn
  | .string s, d, n, text, behind, p, _, h, hn => by
    refine (gives_printStringPtr h hn).mono (fun _ p' hok => ?_) fun _ hbad => hbad
    obtain ⟨rest, hrest, h'⟩ := hok
    exact ⟨[], quoted s, rest, rfl, zero_notMem_quoted s, hrest, by simpa using h'⟩
  | .array items, d, n, text, behind, p, hf, h, hn => by
    rw [JsonItem.text] at hn ⊢
    simp only [List.length_cons, List.length_append, List.length_nil] at hn
    rw [printValue]
    refine (gives_put [0x5b] h (by simp) (by omega)).bind fun _ p1 hok => ?_
    obtain ⟨rest1, hrest1, h1⟩ := hok
    refine (gives_advance [0x5b] h1 hrest1).bind fun _ p2 h2 => ?_
    refine (gives_deeper h2).bind fun _ p3 h3 => ?_
    refine (appends_printElements items (d + 1) n _ _ p3 hf h3
      (by simp only [List.length_append, List.length_cons, List.length_nil]; omega)).bind fun _ p4 hok => ?_
    obtain ⟨rest4, h4⟩ := hok
    refine (gives_put [0x5d, 0] h4 (by simp)
      (by simp only [List.length_append, List.length_cons, List.length_nil]; omega)).bind fun _ p5 hok => ?_
    obtain ⟨rest5, hrest5, h5⟩ := hok
    refine (gives_shallower h5).mono (fun _ p6 h6 => ?_) fun _ hbad => hbad
    refine ⟨0x5b :: elementsText format (d + 1) items, [0x5d], rest5, by simp, by decide, hrest5, ?_⟩
    simpa using h6
  | .object members, d, n, text, behind, p, hf, h, hn => by
    rw [JsonItem.text] at hn ⊢
    simp only [List.length_cons, List.length_append, List.length_nil] at hn
    rw [printValue]
    refine (gives_openObject h (by simp only [List.length_cons]; omega)).bind fun _ p1 hok => ?_
    obtain ⟨rest1, h1⟩ := hok
    refine (appends_printMembers members (d + 1) n _ _ p1 hf h1
      (by simp only [List.length_append, List.length_cons]; omega)).bind fun _ p2 hok => ?_
    obtain ⟨rest2, h2⟩ := hok
    refine (gives_closeObject h2
      (by simp only [List.length_append, List.length_cons, List.length_nil]; omega)).mono
      (fun _ p3 hw => ?_) fun _ hbad => hbad
    obtain ⟨a, b, rest, hab, hb, hrest, h3⟩ := hw
    refine ⟨0x7b :: (lineEnd format ++ membersText format (d + 1) members) ++ a, b, rest, ?_, hb, hrest, ?_⟩
    · rw [List.append_assoc _ _ [0x7d], hab]
      simp
    · simpa using h3

theorem appends_printElements : ∀ (items : List (JsonItem Nat)) (d n : Nat) (text behind : List UInt8)
    (p : PrintBuffer), FiniteElements items → Reached hooks format d text behind p →
    text.length + (elementsText format d items).length + 2 ≤ n →
    Appends hooks format d n text (elementsText format d items) (printElements hooks items) p
  | [], d, n, text, behind, p, _, h, hn =>
    Attempt.gives_pure ⟨behind, by simpa [elementsText] using h⟩
  | item :: items, d, n, text, behind, p, hf, h, hn => by
    rw [elementsText] at hn ⊢
    simp only [List.length_append] at hn
    rw [printElements, List.append_assoc]
    refine Appends.afterWritten (gives_printValue item d n text behind p hf.1 h (by omega))
      fun rest p1 h1 => ?_
    refine (appends_printSeparator h1 (by simp only [List.length_append]; omega)).seq fun rest p2 h2 => ?_
    exact appends_printElements items d n _ _ p2 hf.2 h2 (by simp only [List.length_append]; omega)

theorem appends_printMembers : ∀ (members : List (CString × JsonItem Nat)) (d n : Nat)
    (text behind : List UInt8) (p : PrintBuffer), FiniteMembers members →
    Reached hooks format d text behind p →
    text.length + (membersText format d members).length + 2 ≤ n →
    Appends hooks format d n text (membersText format d members) (printMembers hooks members) p
  | [], d, n, text, behind, p, _, h, hn =>
    Attempt.gives_pure ⟨behind, by simpa [membersText] using h⟩
  | (key, item) :: members, d, n, text, behind, p, hf, h, hn => by
    rw [membersText] at hn ⊢
    simp only [List.length_append] at hn
    rw [printMembers]
    simp only [List.append_assoc]
    refine (appends_printIndent h (by omega)).seq fun rest p1 h1 => ?_
    refine Appends.afterWritten (t := quoted key) ?_ fun rest p2 h2 => ?_
    · refine (gives_printStringPtr h1 (by simp only [List.length_append]; omega)).mono
        (fun _ p' hok => ?_) fun _ hbad => hbad
      obtain ⟨rest', hrest', h'⟩ := hok
      exact ⟨[], quoted key, rest', rfl, zero_notMem_quoted key, hrest', by simpa using h'⟩
    refine (appends_printColon h2 (by simp only [List.length_append]; omega)).seq fun rest p3 h3 => ?_
    refine Appends.afterWritten (gives_printValue item d n _ _ p3 hf.1 h3
      (by simp only [List.length_append]; omega)) fun rest p4 h4 => ?_
    refine (appends_printMemberEnd h4 (by simp only [List.length_append]; omega)).seq fun rest p5 h5 => ?_
    exact appends_printMembers members d n _ _ p5 hf.2 h5 (by simp only [List.length_append]; omega)

end

end Values

section Whole

/-- What `print` has to do for an item of the given text: return it with its NUL in a block of
its own, or NULL with nothing held, and that exactly where a call of the allocator was refused
or the text is too long. -/
structure Printed.Renders (hooks : Hooks) (text : List UInt8) (r : Printed) : Prop where
  printed : r.block = some (text ++ [0]) ∧ r.blocks = 1 ∨ r.block = none ∧ r.blocks = 0
  refused : r.block = none ↔ (∃ k < r.calls, hooks k = none) ∨ intMax < text.length + 2

theorem Printed.renders_of_text {hooks : Hooks} {text : List UInt8} {r : Printed}
    (hblock : r.block = some (text ++ [0])) (hblocks : r.blocks = 1)
    (hcalls : ∀ k < r.calls, hooks k ≠ none) (hlen : text.length + 2 ≤ intMax) :
    r.Renders hooks text where
  printed := .inl ⟨hblock, hblocks⟩
  refused := by
    constructor
    · intro hnone
      rw [hblock] at hnone
      cases hnone
    · rintro (⟨k, hk, hnone⟩ | hlong)
      · exact absurd hnone (hcalls k hk)
      · omega

theorem Printed.renders_of_refusal {hooks : Hooks} {text : List UInt8} {r : Printed}
    (hblock : r.block = none) (hblocks : r.blocks = 0)
    (hcause : (∃ k < r.calls, hooks k = none) ∨ intMax < text.length + 2) : r.Renders hooks text where
  printed := .inr ⟨hblock, hblocks⟩
  refused := ⟨fun _ => hcause, fun _ => hblock⟩

theorem print_renders (hooks : Hooks) {item : JsonItem Nat} (hfin : item.Finite) (format : Bool) :
    ∃ r, print hooks item format = some r ∧ r.Renders hooks (item.text format 0) := by
  unfold print
  cases h0 : hooks 0 with
  | none => exact ⟨_, rfl, Printed.renders_of_refusal rfl rfl (.inl ⟨0, Nat.one_pos, h0⟩)⟩
  | some fresh =>
    have hstart : Reached hooks format 0 [] ((List.range 256).map fresh)
        ⟨some ((List.range 256).map fresh), 256, 0, 0, format, 1, 1⟩ := by
      constructor
      · rfl
      · simp
      · rfl
      · simp
      · exact (by decide : 256 ≤ intMax)
      · rfl
      · rfl
      · rfl
      · intro k hk
        rw [Nat.lt_one_iff.mp hk, h0]
        simp
    obtain ⟨r, p, hrun, hr⟩ := (gives_printValue item 0 _ [] _ _ hfin hstart (le_refl _)).bind
      fun _ p' hw => gives_updated hw
    simp only [List.nil_append, List.length_nil, Nat.zero_add] at hr
    simp only [hrun, Option.bind_some]
    cases r with
    | none =>
      refine ⟨_, rfl, Printed.renders_of_refusal rfl ?_ hr.cause⟩
      have hb := hr.blocks
      simp only [printFail]
      split_ifs at hb ⊢ <;> omega
    | some _ =>
      obtain ⟨rest, hrest, h⟩ := hr
      simp only [h.buffer]
      cases hlast : hooks p.calls with
      | none =>
        refine ⟨_, rfl, Printed.renders_of_refusal rfl ?_ (.inl ⟨p.calls, Nat.lt_succ_self _, hlast⟩)⟩
        simp [printFail, h.blocks]
      | some fresh' =>
        have hlen := h.length
        have hlim := h.limit
        have hpos := List.length_pos_iff.mpr hrest
        simp only [List.length_append, List.length_cons] at hlen
        refine ⟨_, rfl, Printed.renders_of_text ?_ h.blocks ?_ (by omega)⟩
        · rw [h.offset, grown]
          simp [List.take_append]
        · intro k hk
          rcases Nat.lt_succ_iff_lt_or_eq.mp hk with hk | rfl
          · exact h.answered k hk
          · simp [hlast]

/-- `cJSON_Print` never touches a byte outside its block, and returns the formatted text or
NULL, holding one block or none. -/
theorem cJsonPrint_renders (hooks : Hooks) (item : JsonItem Nat) (hfin : item.Finite) :
    ∃ r, cJsonPrint hooks item = some r ∧ r.Renders hooks (item.text true 0) :=
  print_renders hooks hfin true

theorem cJsonPrint_renders_pair :
    (JsonItem.array [.number 5, .null]).Finite ∧
      ∃ r, cJsonPrint (fun _ => some fun _ => 0) (.array [.number 5, .null]) = some r ∧
        r.Renders (fun _ => some fun _ => 0) ((JsonItem.array [.number 5, .null]).text true 0) :=
  have hfive : 5 < 2 ^ 1024 := (by decide : 5 < 10 ^ 15).trans_le (pow_le_limit (by decide))
  have hfin : (JsonItem.array [.number 5, .null]).Finite := ⟨hfive, trivial, trivial⟩
  ⟨hfin, cJsonPrint_renders _ _ hfin⟩

end Whole

end Tcpkit
