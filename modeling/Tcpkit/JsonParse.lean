import Tcpkit.Attempt
import Tcpkit.JsonText

/-! The parser of the JSON library. The text is read through the buffer with a check of each
access, and each string is unescaped into a block whose size was estimated beforehand. -/

namespace Tcpkit

open DecimalText

/-- `calls` counts what was asked of the allocator. -/
structure ParseBuffer where
  content : List UInt8
  offset : Nat
  depth : Nat
  calls : Nat

abbrev Parse (α : Type) := Attempt ParseBuffer α

/-- The items a text stands for have any floating-point number in them. -/
abbrev ParsedItem := JsonItem Binary64.Double

def nestingLimit : Nat := 1000

namespace ParseBuffer

def canAccess (b : ParseBuffer) (i : Nat) : Bool := decide (b.offset + i < b.content.length)

def byteAt (i : Nat) : Parse UInt8 := fun b =>
  (b.content[b.offset + i]?).map fun c => (some c, b)

def step (n : Nat) : Parse Unit := Attempt.modify fun b => { b with offset := b.offset + n }

def stepBack : Parse Unit := Attempt.modify fun b => { b with offset := b.offset - 1 }

/-- An allocation that may be refused. -/
def allocate (answers : Nat → Bool) : Parse Unit := fun b =>
  if answers b.calls then some (some (), { b with calls := b.calls + 1 })
  else some (none, { b with calls := b.calls + 1 })

/-- `can_access_at_index(buffer, 0) && buffer_at_offset(buffer)[0] == c`. -/
def looksAt (c : UInt8) : Parse Bool := do
  let b ← Attempt.get
  if b.canAccess 0 then do
    let c' ← byteAt 0
    pure (c' == c)
  else pure false

/-- `can_read` and `strncmp` with a word. -/
def startsWith (b : ParseBuffer) (word : CString) : Bool :=
  decide (b.offset + word.strlen ≤ b.content.length) &&
    (b.content.drop b.offset).take word.strlen == word.bytes

/-- Moves over everything up to the space character, the NUL included, but stays inside. -/
def skipWhitespace : Parse Unit := Attempt.modify fun b =>
  let offset := b.offset + ((b.content.drop b.offset).takeWhile (fun c => c ≤ 32)).length
  { b with offset := if offset = b.content.length then offset - 1 else offset }

end ParseBuffer

open ParseBuffer

section Numbers

/-- What is copied into the 64 bytes of `number_c_string`. -/
def numberString (b : ParseBuffer) : List UInt8 :=
  ((b.content.drop b.offset).takeWhile isNumberByte).take 63

def parseNumber : Parse ParsedItem := fun b =>
  if (strtod (numberString b)).2 = 0 then some (none, b)
  else some (some (.number (strtod (numberString b)).1),
    { b with offset := b.offset + (strtod (numberString b)).2 })

end Numbers

section Strings

def hexValue (c : UInt8) : Option Nat :=
  if 0x30 ≤ c ∧ c ≤ 0x39 then some (c.toNat - 0x30)
  else if 0x41 ≤ c ∧ c ≤ 0x46 then some (10 + c.toNat - 0x41)
  else if 0x61 ≤ c ∧ c ≤ 0x66 then some (10 + c.toNat - 0x61)
  else none

def hexLoop : List UInt8 → Nat → Option Nat
  | [], h => some h
  | c :: digits, h => (hexValue c).bind fun v => hexLoop digits (h * 16 + v)

/-- Four hexadecimal digits; anything else counts as zero. -/
def parseHex4 (digits : List UInt8) : Nat := (hexLoop digits 0).getD 0

/-- The bytes from index `i` of `input` on, which must all be there. -/
def readBytes (input : List UInt8) (i n : Nat) : Access (List UInt8) :=
  if i + n ≤ input.length then some ((input.drop i).take n) else none

/-- The continuation bytes from the last one to the first, and the code point left over. -/
def continuationBytes : Nat → Nat → List UInt8 × Nat
  | 0, codepoint => ([], codepoint)
  | n + 1, codepoint =>
    let rest := continuationBytes n (codepoint / 2 ^ 6)
    (rest.1 ++ [UInt8.ofNat (codepoint % 2 ^ 6 + 0x80)], rest.2)

/-- UTF-8 as far as there are code points. -/
def encodeUtf8 (codepoint : Nat) : Option (List UInt8) :=
  if codepoint < 0x80 then some [UInt8.ofNat codepoint]
  else if codepoint < 0x800 then
    let r := continuationBytes 1 codepoint
    some (UInt8.ofNat (r.2 ||| 0xc0) :: r.1)
  else if codepoint < 0x10000 then
    let r := continuationBytes 2 codepoint
    some (UInt8.ofNat (r.2 ||| 0xe0) :: r.1)
  else if codepoint ≤ 0x10ffff then
    let r := continuationBytes 3 codepoint
    some (UInt8.ofNat (r.2 ||| 0xf0) :: r.1)
  else none

/-- `\uXXXX`, or two of them for a surrogate pair, where `left` bytes are in front of the end
of the literal: the length of the sequence and its bytes. -/
def utf16LiteralToUtf8 (input : List UInt8) (left : Nat) : Access (Option (Nat × List UInt8)) := do
  if left < 6 then return none
  let firstCode := parseHex4 (← readBytes input 2 4)
  if 0xdc00 ≤ firstCode ∧ firstCode ≤ 0xdfff then return none
  if 0xd800 ≤ firstCode ∧ firstCode ≤ 0xdbff then
    if left - 6 < 6 then return none
    let mark ← readBytes input 6 2
    if mark ≠ [0x5c, 0x75] then return none
    let secondCode := parseHex4 (← readBytes input 8 4)
    if secondCode < 0xdc00 ∨ secondCode > 0xdfff then return none
    return (encodeUtf8 (0x10000 + (firstCode % 0x400 * 0x400 + secondCode % 0x400))).map fun u => (12, u)
  else return (encodeUtf8 firstCode).map fun u => (6, u)

/-- The end of a literal, from index `i` on: its closing quote and how many escapes were passed. -/
def findEnd : List UInt8 → Nat → Nat → Option (Nat × Nat)
  | [], _, _ => none
  | c :: rest, i, skipped =>
    if c = 0x22 then some (i, skipped)
    else if c = 0x5c then
      match rest with
      | [] => none
      | _ :: rest => findEnd rest (i + 2) (skipped + 1)
    else findEnd rest (i + 1) skipped

/-- The escape sequence at the start of `input`: its length and the bytes it stands for. -/
def unescapeOne (input : List UInt8) (left : Nat) : Access (Option (Nat × List UInt8)) := do
  let letter ← input[1]?
  if letter = 0x62 then return some (2, [0x08])
  else if letter = 0x66 then return some (2, [0x0c])
  else if letter = 0x6e then return some (2, [0x0a])
  else if letter = 0x72 then return some (2, [0x0d])
  else if letter = 0x74 then return some (2, [0x09])
  else if letter = 0x22 ∨ letter = 0x5c ∨ letter = 0x2f then return some (2, [letter])
  else if letter = 0x75 then utf16LiteralToUtf8 input left
  else return none

/-- The loop over a literal of which `left` bytes remain: `output` are the bytes written so far
into a block of `capacity` bytes. -/
def unescapeLoop (capacity : Nat) : Nat → List UInt8 → Nat → List UInt8 → Access (Option (List UInt8))
  | 0, _, left, output => if left = 0 then some (some output) else none
  | fuel + 1, input, left, output =>
    if left = 0 then some (some output)
    else match input with
      | [] => none
      | c :: rest =>
        if c ≠ 0x5c then
          if output.length + 1 ≤ capacity then unescapeLoop capacity fuel rest (left - 1) (output ++ [c])
          else none
        else do
          match ← unescapeOne input left with
          | none => return none
          | some (n, bytes) =>
            if output.length + bytes.length ≤ capacity then
              unescapeLoop capacity fuel (input.drop n) (left - n) (output ++ bytes)
            else none

theorem zero_notMem_takeWhile (bytes : List UInt8) : 0 ∉ bytes.takeWhile (fun c => c ≠ 0) :=
  fun h => by simpa using List.mem_takeWhile_imp h

/-- A C string of the bytes in front of the first NUL. -/
def cString (bytes : List UInt8) : CString where
  bytes := bytes.takeWhile (fun c => c ≠ 0)
  noNul := zero_notMem_takeWhile bytes

/-- The string that the `length` bytes of a literal stand for; one byte more than the capacity
is there for the terminating NUL. -/
def unescape (length skipped : Nat) (input : List UInt8) : Parse CString := fun b =>
  (unescapeLoop (length + 1 - skipped) length input length []).bind fun r =>
    match r with
    | none => some (none, b)
    | some output => some (some (cString output), { b with offset := b.offset + length + 2 })

def parseString (answers : Nat → Bool) : Parse CString := do
  let first ← byteAt 0
  if first ≠ 0x22 then Attempt.giveUp
  else do
    let b ← Attempt.get
    match findEnd (b.content.drop (b.offset + 1)) 0 0 with
    | none => Attempt.giveUp
    | some e => do
      allocate answers
      unescape e.1 e.2 (b.content.drop (b.offset + 1))

end Strings

section Values

variable (answers : Nat → Bool)

def enter : Parse Unit := do
  let b ← Attempt.get
  if b.depth ≥ nestingLimit then Attempt.giveUp
  else Attempt.modify fun b => { b with depth := b.depth + 1 }

def leave : Parse Unit := Attempt.modify fun b => { b with depth := b.depth - 1, offset := b.offset + 1 }

/-- Behind an opening bracket: whether the closing one follows at once. -/
def opened (close : UInt8) : Parse Bool := do
  step 1
  skipWhitespace
  let empty ← looksAt close
  if empty then pure true
  else do
    let b ← Attempt.get
    if b.canAccess 0 then do
      stepBack
      pure false
    else do
      stepBack
      Attempt.giveUp

/-- The closing bracket that has to come. -/
def closed (close : UInt8) : Parse Unit := do
  let there ← looksAt close
  if there then leave else Attempt.giveUp

mutual

def parseValue : Nat → Parse ParsedItem
  | 0 => Attempt.fault
  | fuel + 1 => do
    let b ← Attempt.get
    if startsWith b (CString.literal "null") then do
      step 4
      pure .null
    else if startsWith b (CString.literal "false") then do
      step 5
      pure (.bool false)
    else if startsWith b (CString.literal "true") then do
      step 4
      pure (.bool true)
    else if b.canAccess 0 then do
      let c ← byteAt 0
      if c = 0x22 then do
        let s ← parseString answers
        pure (.string s)
      else if c = 0x2d ∨ (0x30 ≤ c ∧ c ≤ 0x39) then parseNumber
      else if c = 0x5b then do
        enter
        let empty ← opened 0x5d
        if empty then do
          leave
          pure (.array [])
        else do
          let items ← parseElements fuel
          closed 0x5d
          pure (.array items)
      else if c = 0x7b then do
        enter
        let empty ← opened 0x7d
        if empty then do
          leave
          pure (.object [])
        else do
          let members ← parseMembers fuel
          closed 0x7d
          pure (.object members)
      else Attempt.giveUp
    else Attempt.giveUp

def parseElements : Nat → Parse (List ParsedItem)
  | 0 => Attempt.fault
  | fuel + 1 => do
    allocate answers
    step 1
    skipWhitespace
    let item ← parseValue fuel
    skipWhitespace
    let more ← looksAt 0x2c
    if more then do
      let items ← parseElements fuel
      pure (item :: items)
    else pure [item]

def parseMembers : Nat → Parse (List (CString × ParsedItem))
  | 0 => Attempt.fault
  | fuel + 1 => do
    allocate answers
    step 1
    skipWhitespace
    let key ← parseString answers
    skipWhitespace
    let colon ← looksAt 0x3a
    if colon then do
      step 1
      skipWhitespace
      let item ← parseValue fuel
      skipWhitespace
      let more ← looksAt 0x2c
      if more then do
        let members ← parseMembers fuel
        pure ((key, item) :: members)
      else pure [(key, item)]
    else Attempt.giveUp

end

def skipUtf8Bom : Parse Unit := do
  let b ← Attempt.get
  if b.canAccess 4 ∧ (b.content.drop b.offset).take 3 = [0xef, 0xbb, 0xbf] then step 3 else pure ()

/-- Every level of the grammar takes a byte, so the bound on the recursion is never met. -/
def parseText (value : CString) (requireNullTerminated : Bool) : Parse ParsedItem := do
  allocate answers
  skipUtf8Bom
  skipWhitespace
  let item ← parseValue answers (2 * value.strlen + 3)
  if requireNullTerminated then do
    skipWhitespace
    let ended ← looksAt 0
    if ended then pure item else Attempt.giveUp
  else pure item

def parseWithOpts (value : CString) (requireNullTerminated : Bool) : Access (Option ParsedItem) :=
  (parseText answers value requireNullTerminated ⟨value.bytes ++ [0], 0, 0, 0⟩).map Prod.fst

def cJsonParse (value : CString) : Access (Option ParsedItem) := parseWithOpts answers value false

end Values

section Unescaping

/-- Whether the byte behind `c` is the second one of an escape. -/
def inPair (mid : Bool) (c : UInt8) : Bool := !mid && c == 0x5c

/-- What the estimate counts for the rest of a literal: the first byte of an escape is free. -/
def budget : Bool → List UInt8 → Nat
  | _, [] => 0
  | mid, c :: rest => (if inPair mid c then 0 else 1) + budget (inPair mid c) rest

theorem budget_cons_of_ne {mid : Bool} {c : UInt8} {rest : List UInt8} (h : c ≠ 0x5c) :
    budget mid (c :: rest) = 1 + budget false rest := by
  have hp : inPair mid c = false := by simp [inPair, h]
  simp [budget, hp]

/-- Of two bytes in a row at least one is counted. -/
theorem budget_two (mid : Bool) (x y : UInt8) (rest : List UInt8) :
    ∃ mid', 1 + budget mid' rest ≤ budget mid (x :: y :: rest) := by
  refine ⟨inPair (inPair mid x) y, ?_⟩
  simp only [budget]
  cases hx : inPair mid x with
  | false => simp
  | true =>
    have hy : inPair true y = false := rfl
    simp [hy]

theorem budget_drop (n : Nat) (mid : Bool) (l : List UInt8) (h : 2 * n ≤ l.length) :
    ∃ mid', n + budget mid' (l.drop (2 * n)) ≤ budget mid l := by
  induction n generalizing mid l with
  | zero => exact ⟨mid, by simp⟩
  | succ n ih =>
    match l, h with
    | [_], h =>
      simp only [List.length_singleton] at h
      omega
    | x :: y :: rest, h =>
      obtain ⟨mid1, h1⟩ := budget_two mid x y rest
      obtain ⟨mid2, h2⟩ := ih mid1 rest (by simp only [List.length_cons] at h; omega)
      refine ⟨mid2, ?_⟩
      rw [show 2 * (n + 1) = 2 * n + 2 by ring, List.drop_succ_cons, List.drop_succ_cons]
      omega

theorem findEnd_spec {input : List UInt8} {i k j s : Nat} (h : findEnd input i k = some (j, s)) :
    ∃ l post, input = l ++ 0x22 :: post ∧ j = i + l.length ∧ k ≤ s ∧
      budget false l + (s - k) = l.length := by
  induction input, i, k using findEnd.induct with
  | case1 i k => simp [findEnd] at h
  | case2 rest i k =>
    rw [findEnd.eq_def] at h
    obtain ⟨rfl, rfl⟩ := Prod.mk.inj (Option.some.inj h)
    exact ⟨[], rest, rfl, rfl, le_refl _, by simp [budget]⟩
  | case3 i k hq =>
    simp [findEnd.eq_def] at h
  | case4 i k x rest hq ih =>
    rw [findEnd, if_neg hq, if_pos rfl] at h
    obtain ⟨l, post, rfl, hj, hk, hl⟩ := ih h
    refine ⟨0x5c :: x :: l, post, rfl, ?_, by omega, ?_⟩
    · simp only [List.length_cons]
      omega
    · have hx : inPair true x = false := rfl
      have hb : inPair false 0x5c = true := rfl
      simp only [budget, hb, hx, List.length_cons]
      simp
      omega
  | case5 c rest i k hq hb ih =>
    rw [findEnd.eq_def] at h
    simp only [if_neg hq, if_neg hb] at h
    obtain ⟨l, post, rfl, hj, hk, hl⟩ := ih h
    refine ⟨c :: l, post, rfl, ?_, hk, ?_⟩
    · simp only [List.length_cons]
      omega
    · rw [budget_cons_of_ne hb, List.length_cons]
      omega

theorem readBytes_of_le (input : List UInt8) {i n : Nat} (h : i + n ≤ input.length) :
    readBytes input i n = some ((input.drop i).take n) := if_pos h

theorem hexValue_lt {c : UInt8} {v : Nat} (h : hexValue c = some v) : v < 16 := by
  have hall : ∀ n < 256, ∀ v, hexValue (UInt8.ofNat n) = some v → v < 16 := by decide +kernel
  exact hall c.toNat c.toNat_lt v (by simpa using h)

theorem hexLoop_lt {digits : List UInt8} {h r : Nat} (hr : hexLoop digits h = some r) :
    r < (h + 1) * 16 ^ digits.length := by
  induction digits generalizing h with
  | nil =>
    cases hr
    simp
  | cons c digits ih =>
    obtain ⟨v, hv, hnext⟩ := Option.bind_eq_some_iff.mp hr
    have hlt := hexValue_lt hv
    refine (ih hnext).trans_le ?_
    rw [List.length_cons, pow_succ', ← Nat.mul_assoc]
    exact Nat.mul_le_mul_right _ (by omega)

theorem parseHex4_lt (digits : List UInt8) (h : digits.length = 4) : parseHex4 digits < 0x10000 := by
  unfold parseHex4
  cases hr : hexLoop digits 0 with
  | none => exact Nat.zero_lt_succ _
  | some r => simpa [h] using hexLoop_lt hr

theorem length_continuationBytes (n c : Nat) : (continuationBytes n c).1.length = n := by
  induction n generalizing c with
  | zero => rfl
  | succ n ih => simp [continuationBytes, ih]

theorem length_encodeUtf8 {c : Nat} {u : List UInt8} (h : encodeUtf8 c = some u) :
    u.length ≤ 4 ∧ (c < 0x10000 → u.length ≤ 3) := by
  unfold encodeUtf8 at h
  split_ifs at h with h1 h2 h3 h4 <;> cases h <;>
    simp only [List.length_cons, List.length_nil, length_continuationBytes] <;> omega

/-- A sequence is read inside the literal and stands for at most half as many bytes. -/
theorem utf16LiteralToUtf8_spec {input : List UInt8} {left : Nat} (h : left ≤ input.length) :
    ∃ r, utf16LiteralToUtf8 input left = some r ∧
      ∀ n u, r = some (n, u) → n ≤ left ∧ (n = 6 ∨ n = 12) ∧ 2 * u.length ≤ n := by
  unfold utf16LiteralToUtf8
  by_cases h6 : left < 6
  · exact ⟨none, by simp [h6], by simp⟩
  have hhex := parseHex4_lt ((input.drop 2).take 4) (by simp; omega)
  have hread1 := readBytes_of_le input (i := 2) (n := 4) (by omega)
  generalize hfirst : parseHex4 ((input.drop 2).take 4) = first at hhex
  simp only [h6, if_false, hread1, Option.bind_eq_bind, Option.bind_some, hfirst]
  by_cases hlow : 0xdc00 ≤ first ∧ first ≤ 0xdfff
  · exact ⟨none, by simp [hlow], by simp⟩
  by_cases hhigh : 0xd800 ≤ first ∧ first ≤ 0xdbff
  · by_cases h12 : left - 6 < 6
    · exact ⟨none, by simp [hlow, hhigh, h12], by simp⟩
    have hread2 := readBytes_of_le input (i := 6) (n := 2) (by omega)
    by_cases hmark : (input.drop 6).take 2 ≠ [0x5c, 0x75]
    · exact ⟨none, by simp [hlow, hhigh, h12, hread2, hmark], by simp⟩
    have hread3 := readBytes_of_le input (i := 8) (n := 4) (by omega)
    generalize hsecond : parseHex4 ((input.drop 8).take 4) = second
    by_cases hrange : second < 0xdc00 ∨ second > 0xdfff
    · exact ⟨none, by simp [hlow, hhigh, h12, hread2, not_not.mp hmark, hread3, hsecond, hrange], by simp⟩
    refine ⟨(encodeUtf8 (0x10000 + (first % 0x400 * 0x400 + second % 0x400))).map fun u => (12, u),
      by simp [hlow, hhigh, h12, hread2, not_not.mp hmark, hread3, hsecond, hrange], ?_⟩
    intro n u hu
    obtain ⟨u', hu', he⟩ := Option.map_eq_some_iff.mp hu
    cases he
    have := (length_encodeUtf8 hu').1
    omega
  · refine ⟨(encodeUtf8 first).map fun u => (6, u), by simp [hlow, hhigh], ?_⟩
    intro n u hu
    obtain ⟨u', hu', he⟩ := Option.map_eq_some_iff.mp hu
    cases he
    have := (length_encodeUtf8 hu').2 hhex
    omega

/-- An escape takes two, six or twelve bytes and stands for at most half as many; only the
first kind may reach beyond the literal, onto the closing quote. -/
theorem unescapeOne_spec (input : List UInt8) (left : Nat) (hlen : 2 ≤ input.length)
    (h : left ≤ input.length) :
    ∃ r, unescapeOne input left = some r ∧
      ∀ n u, r = some (n, u) → n = 2 ∧ u.length = 1 ∨ n ≤ left ∧ (n = 6 ∨ n = 12) ∧ 2 * u.length ≤ n := by
  unfold unescapeOne
  have hsimple (u : UInt8) : ∀ n us, some (2, [u]) = some (n, us) →
      n = 2 ∧ us.length = 1 ∨ n ≤ left ∧ (n = 6 ∨ n = 12) ∧ 2 * us.length ≤ n := by
    intro n us he
    cases he
    exact .inl ⟨rfl, rfl⟩
  rw [List.getElem?_eq_getElem (show 1 < input.length by omega)]
  simp only [Option.bind_eq_bind, Option.bind_some]
  generalize input[1] = letter
  split_ifs
  · exact ⟨_, rfl, hsimple _⟩
  · exact ⟨_, rfl, hsimple _⟩
  · exact ⟨_, rfl, hsimple _⟩
  · exact ⟨_, rfl, hsimple _⟩
  · exact ⟨_, rfl, hsimple _⟩
  · exact ⟨_, rfl, hsimple _⟩
  · obtain ⟨r, hr, hspec⟩ := utf16LiteralToUtf8_spec h
    exact ⟨r, hr, fun n u he => .inr (hspec n u he)⟩
  · exact ⟨none, rfl, fun n u he => by cases he⟩

theorem unescapeLoop_zero (capacity fuel : Nat) (input output : List UInt8) :
    unescapeLoop capacity fuel input 0 output = some (some output) := by
  cases fuel with
  | zero => rfl
  | succ fuel => rw [unescapeLoop.eq_def]; rfl

/-- The loop stays inside the literal and its closing quote, and inside the block. -/
theorem unescapeLoop_safe (capacity : Nat) (post : List UInt8) (fuel : Nat) (l : List UInt8) (mid : Bool)
    (output : List UInt8) (hfuel : l.length ≤ fuel)
    (hroom : output.length + budget mid l + 1 ≤ capacity) :
    ∃ r, unescapeLoop capacity fuel (l ++ 0x22 :: post) l.length output = some r := by
  induction fuel generalizing l mid output with
  | zero =>
    rw [List.length_eq_zero_iff.mp (Nat.le_zero.mp hfuel)]
    exact ⟨_, rfl⟩
  | succ fuel ih =>
    match l, hfuel, hroom with
    | [], _, _ => exact ⟨some output, by simp [unescapeLoop]⟩
    | c :: l, hfuel, hroom =>
      rw [List.length_cons] at hfuel
      rw [unescapeLoop.eq_def]
      simp only [List.cons_append]
      rw [if_neg (by simp)]
      by_cases hc : c ≠ 0x5c
      · rw [budget_cons_of_ne hc] at hroom
        rw [if_pos hc, if_pos (by omega), List.length_cons, Nat.add_sub_cancel]
        exact ih l false (output ++ [c]) (by omega) (by simp; omega)
      · rw [if_neg hc]
        obtain ⟨r, hr, hspec⟩ := unescapeOne_spec (c :: (l ++ 0x22 :: post))
          (c :: l).length (by simp; omega) (by simp)
        rw [hr, Option.bind_eq_bind, Option.bind_some]
        cases r with
        | none => exact ⟨none, rfl⟩
        | some nu =>
          obtain ⟨n, u⟩ := nu
          rcases hspec n u rfl with ⟨rfl, hu⟩ | ⟨hn, hsix, hu⟩
          · match l, hfuel, hroom with
            | [], _, hroom =>
              -- the backslash was the second byte of an escape and takes the closing quote with it
              exact ⟨some (output ++ u), by simp [unescapeLoop_zero,
                show output.length + u.length ≤ capacity by omega]⟩
            | x :: l, hfuel, hroom =>
              obtain ⟨mid', hb⟩ := budget_two mid c x l
              simp only
              rw [if_pos (by omega)]
              exact ih l mid' (output ++ u) (by simp only [List.length_cons] at hfuel; omega)
                (by rw [List.length_append]; omega)
          · obtain ⟨k, rfl⟩ : ∃ k, n = 2 * k := by rcases hsix with rfl | rfl; exacts [⟨3, rfl⟩, ⟨6, rfl⟩]
            obtain ⟨mid', hb⟩ := budget_drop k mid (c :: l) hn
            have hdrop : (c :: (l ++ 0x22 :: post)).drop (2 * k) = (c :: l).drop (2 * k) ++ 0x22 :: post := by
              rw [← List.cons_append, List.drop_append_of_le_length hn]
            have hpos : 0 < k := by omega
            simp only
            rw [if_pos (by omega), hdrop, ← List.length_drop]
            refine ih _ mid' (output ++ u) ?_ (by rw [List.length_append]; omega)
            rw [List.length_drop, List.length_cons]
            omega

end Unescaping

/-- The buffer still holds `text`, whose only NUL is the last byte, and stands inside it at `o`
or behind. -/
structure Inside (value : CString) (o : Nat) (b : ParseBuffer) : Prop where
  content : b.content = value.bytes ++ [0]
  from_ : o ≤ b.offset
  inside : b.offset ≤ value.strlen

section Safety

variable {value : CString} {o : Nat} {b : ParseBuffer} {answers : Nat → Bool}

theorem Inside.length (h : Inside value o b) : b.content.length = value.strlen + 1 := by
  rw [h.content]
  simp [CString.strlen]

theorem Inside.mono {o' : Nat} (h : Inside value o b) (hle : o' ≤ o) : Inside value o' b :=
  ⟨h.content, hle.trans h.from_, h.inside⟩

/-- A byte other than NUL has one behind it. -/
theorem Inside.lt_of_byte {c : UInt8} {i : Nat} (h : Inside value o b) (hc : b.content[i]? = some c)
    (hne : c ≠ 0) : i < value.strlen := by
  have hlt := (List.getElem?_eq_some_iff.mp hc).1
  rw [h.length] at hlt
  by_contra hge
  have hi : i = value.bytes.length := by
    unfold CString.strlen at hlt hge
    omega
  rw [h.content, hi, List.getElem?_concat_length] at hc
  exact hne (Option.some.inj hc).symm

theorem safe_byteAt (h : Inside value o b) :
    (byteAt 0).Gives b (fun c b' => b' = b ∧ b.content[b.offset]? = some c) fun _ => True := by
  have hlt : b.offset < b.content.length := by
    rw [h.length]
    exact Nat.lt_succ_of_le h.inside
  have hget := List.getElem?_eq_getElem hlt
  refine Attempt.Gives.value (a := b.content[b.offset]) (t := b) ?_ ⟨rfl, hget⟩
  simp [byteAt, hget]

theorem safe_looksAt (h : Inside value o b) (c : UInt8) :
    (looksAt c).Gives b (fun r b' => b' = b ∧ (r = true → b.content[b.offset]? = some c))
      fun _ => True := by
  unfold looksAt
  refine Attempt.gives_get.bind fun q b' hq => ?_
  obtain ⟨rfl, rfl⟩ := hq
  have hacc : b'.canAccess 0 = true := by
    rw [canAccess, decide_eq_true_eq, h.length]
    exact Nat.lt_succ_of_le h.inside
  rw [if_pos hacc]
  refine (safe_byteAt h).bind fun c' b'' hc => ?_
  obtain ⟨rfl, hc⟩ := hc
  refine Attempt.gives_pure ⟨rfl, fun heq => ?_⟩
  rw [hc, beq_iff_eq.mp heq]

theorem safe_step (n : Nat) (h : Inside value o b) (hn : b.offset + n ≤ value.strlen) :
    (step n).Gives b (fun _ => Inside value (b.offset + n)) fun _ => True :=
  Attempt.gives_modify ⟨h.content, le_refl _, hn⟩

theorem safe_skipWhitespace (h : Inside value o b) :
    skipWhitespace.Gives b (fun _ => Inside value o) fun _ => True := by
  have htake := (List.takeWhile_prefix (fun c => decide (c ≤ 32)) (l := b.content.drop b.offset)).length_le
  rw [List.length_drop, h.length] at htake
  have hin := h.inside
  have hfrom := h.from_
  refine Attempt.gives_modify ⟨h.content, ?_, ?_⟩
  · simp only
    split_ifs with he
    · rw [h.length] at he
      omega
    · omega
  · simp only
    split_ifs with he
    · rw [h.length] at he
      omega
    · rw [h.length] at he
      omega

theorem gives_allocate (b : ParseBuffer) :
    (allocate answers).Gives b (fun _ b' => b' = { b with calls := b.calls + 1 }) fun _ => True := by
  unfold allocate
  by_cases ha : answers b.calls = true
  · exact Attempt.Gives.value (a := ()) (if_pos ha) rfl
  · exact Attempt.Gives.refusal (if_neg ha) trivial

theorem safe_allocate (h : Inside value o b) :
    (allocate answers).Gives b (fun _ b' => Inside value o b' ∧ b'.offset = b.offset) fun _ => True := by
  refine (gives_allocate b).mono (fun _ b' he => ?_) fun _ _ => trivial
  subst he
  exact ⟨⟨h.content, h.from_, h.inside⟩, rfl⟩

theorem startsWith_lt {word : CString} (h : Inside value o b) (hs : startsWith b word = true)
    (hpos : 0 < word.strlen) : b.offset + word.strlen ≤ value.strlen := by
  rw [startsWith, Bool.and_eq_true, decide_eq_true_eq, beq_iff_eq] at hs
  obtain ⟨hle, htake⟩ := hs
  have hlast : b.content[b.offset + (word.strlen - 1)]? = word.bytes[word.strlen - 1]? := by
    rw [← htake, List.getElem?_take_of_lt (by omega), List.getElem?_drop]
  have hidx : word.strlen - 1 < word.bytes.length := by
    unfold CString.strlen at hpos ⊢
    omega
  rw [List.getElem?_eq_getElem hidx] at hlast
  have hne : word.bytes[word.strlen - 1] ≠ 0 := fun h0 => word.noNul (h0 ▸ List.getElem_mem hidx)
  have := h.lt_of_byte hlast hne
  omega

theorem safe_parseNumber (h : Inside value o b) :
    parseNumber.Gives b (fun _ => Inside value (b.offset + 1)) fun _ => True := by
  by_cases hzero : (strtod (numberString b)).2 = 0
  · exact Attempt.Gives.refusal (if_pos hzero) trivial
  refine Attempt.Gives.value (a := .number (strtod (numberString b)).1) (if_neg hzero) ⟨h.content, ?_, ?_⟩
  · exact Nat.add_le_add_left (Nat.pos_of_ne_zero hzero) _
  · have hpre : numberString b <+: b.content.drop b.offset :=
      (List.take_prefix _ _).trans (List.takeWhile_prefix _)
    have hlast : (strtod (numberString b)).2 - 1 < (numberString b).length := by
      have := strtod_snd_le (numberString b)
      omega
    have hbyte : isNumberByte (numberString b)[(strtod (numberString b)).2 - 1] = true :=
      List.mem_takeWhile_imp (List.mem_of_mem_take (List.getElem_mem hlast))
    obtain ⟨t, ht⟩ := hpre
    have hget : b.content[b.offset + ((strtod (numberString b)).2 - 1)]? =
        some (numberString b)[(strtod (numberString b)).2 - 1] := by
      rw [← List.getElem?_drop, ← ht, List.getElem?_append_left hlast, List.getElem?_eq_getElem hlast]
    have hne : (numberString b)[(strtod (numberString b)).2 - 1] ≠ 0 := by
      intro h0
      rw [h0] at hbyte
      exact absurd hbyte (by decide)
    have := h.lt_of_byte hget hne
    simp only
    omega

theorem safe_parseString (h : Inside value o b) :
    (parseString answers).Gives b (fun _ => Inside value (b.offset + 1)) fun _ => True := by
  unfold parseString
  refine (safe_byteAt h).bind fun first b' hfirst => ?_
  obtain ⟨rfl, hfirst⟩ := hfirst
  split_ifs with hq
  · exact Attempt.gives_giveUp trivial
  refine Attempt.gives_get.bind fun q b'' heq => ?_
  obtain ⟨rfl, rfl⟩ := heq
  cases hend : findEnd (b''.content.drop (b''.offset + 1)) 0 0 with
  | none => exact Attempt.gives_giveUp trivial
  | some e =>
    obtain ⟨l, post, hinput, hlen, -, hbudget⟩ := findEnd_spec hend
    rw [Nat.zero_add] at hlen
    have hquote : b''.content[b''.offset + 1 + l.length]? = some 0x22 := by
      rw [← List.getElem?_drop, hinput, List.getElem?_append_right (le_refl _), Nat.sub_self]
      rfl
    have hlt := h.lt_of_byte hquote (by decide)
    refine (gives_allocate b'').bind fun _ b1 h1 => ?_
    subst h1
    obtain ⟨r, hr⟩ := unescapeLoop_safe (l.length + 1 - e.2) post l.length l
      false [] (le_refl _) (by rw [List.length_nil]; omega)
    rw [← hinput, ← hlen] at hr
    cases r with
    | none => exact Attempt.Gives.refusal (by simp only [unescape, hr]; rfl) trivial
    | some output =>
      refine Attempt.Gives.value (a := cString output)
        (t := ⟨b''.content, b''.offset + e.1 + 2, b''.depth, b''.calls + 1⟩)
        (by simp only [unescape, hr]; rfl) ⟨h.content, ?_, ?_⟩
      · simp only
        omega
      · simp only
        omega

theorem safe_enter (h : Inside value o b) :
    enter.Gives b (fun _ b' => b'.content = b.content ∧ b'.offset = b.offset) fun _ => True := by
  refine Attempt.gives_get.bind fun q b' heq => ?_
  obtain ⟨rfl, rfl⟩ := heq
  split_ifs
  · exact Attempt.gives_giveUp trivial
  · exact Attempt.gives_modify ⟨rfl, rfl⟩

theorem safe_leave (h : Inside value o b) (hlt : b.offset < value.strlen) :
    leave.Gives b (fun _ => Inside value (o + 1)) fun _ => True :=
  Attempt.gives_modify ⟨h.content, Nat.succ_le_succ h.from_, hlt⟩

theorem safe_opened {close : UInt8} (hclose : close ≠ 0) (h : Inside value o b)
    (hlt : b.offset < value.strlen) :
    (opened close).Gives b
      (fun _ b' => Inside value b.offset b' ∧ b'.offset < value.strlen) fun _ => True := by
  refine (safe_step 1 h hlt).bind fun _ b1 h1 => ?_
  refine (safe_skipWhitespace h1).bind fun _ b2 h2 => ?_
  refine (safe_looksAt h2 close).bind fun empty b3 h3 => ?_
  obtain ⟨rfl, hthere⟩ := h3
  cases empty with
  | true => exact Attempt.gives_pure ⟨h2.mono (Nat.le_succ _), h2.lt_of_byte (hthere rfl) hclose⟩
  | false =>
    refine Attempt.gives_get.bind fun q b' heq => ?_
    obtain ⟨rfl, rfl⟩ := heq
    have hfrom := h2.from_
    have hin := h2.inside
    have hback : stepBack.Gives b' (fun _ b'' => Inside value b.offset b'' ∧ b''.offset < value.strlen)
        fun _ => True :=
      Attempt.gives_modify ⟨⟨h2.content, by simp only; omega, by simp only; omega⟩, by simp only; omega⟩
    split_ifs
    · exact hback.bind fun _ b'' h'' => Attempt.gives_pure h''
    · exact hback.bind fun _ b'' _ => Attempt.gives_giveUp trivial

theorem safe_closed {close : UInt8} (hclose : close ≠ 0) (h : Inside value o b) :
    (closed close).Gives b (fun _ => Inside value (o + 1)) fun _ => True := by
  refine (safe_looksAt h close).bind fun there b1 h1 => ?_
  obtain ⟨rfl, hthere⟩ := h1
  cases there with
  | true => exact safe_leave h (h.lt_of_byte (hthere rfl) hclose)
  | false => exact Attempt.gives_giveUp trivial

/-- With two units of fuel for every byte left, `m` moves on and stays inside. -/
def SafeLoop {α : Type} (value : CString) (m : Nat → Parse α) (fuel : Nat) : Prop :=
  ∀ b o, Inside value o b → b.offset < value.strlen → 2 * (value.strlen + 1 - b.offset) ≤ fuel →
    (m fuel).Gives b (fun _ => Inside value (b.offset + 1)) fun _ => True

def SafeValue (value : CString) (answers : Nat → Bool) (fuel : Nat) : Prop :=
  ∀ b o, Inside value o b → 2 * (value.strlen + 1 - b.offset) < fuel →
    (parseValue answers fuel).Gives b (fun _ => Inside value (b.offset + 1)) fun _ => True

variable {fuel : Nat}

theorem safe_parseElements (hv : SafeValue value answers fuel)
    (he : SafeLoop value (parseElements answers) fuel) :
    SafeLoop value (parseElements answers) (fuel + 1) := by
  intro b o h hlt hfuel
  rw [parseElements]
  refine (safe_allocate h).bind fun _ b1 h1 => ?_
  obtain ⟨h1, heq⟩ := h1
  rw [← heq] at hlt hfuel ⊢
  refine (safe_step 1 h1 hlt).bind fun _ b2 h2 => ?_
  refine (safe_skipWhitespace h2).bind fun _ b3 h3 => ?_
  have hfrom3 := h3.from_
  refine (hv b3 _ h3 (by omega)).bind fun item b4 h4 => ?_
  refine (safe_skipWhitespace h4).bind fun _ b5 h5 => ?_
  refine (safe_looksAt h5 0x2c).bind fun more b6 h6 => ?_
  obtain ⟨rfl, hcomma⟩ := h6
  have hfrom5 := h5.from_
  cases more with
  | true =>
    rw [if_pos rfl]
    refine (he b6 _ h5 (h5.lt_of_byte (hcomma rfl) (by decide)) (by omega)).bind
      fun items b7 h7 => ?_
    exact Attempt.gives_pure (h7.mono (by omega))
  | false => exact Attempt.gives_pure (h5.mono (by omega))

theorem safe_parseMembers (hv : SafeValue value answers fuel)
    (he : SafeLoop value (parseMembers answers) fuel) :
    SafeLoop value (parseMembers answers) (fuel + 1) := by
  intro b o h hlt hfuel
  rw [parseMembers]
  refine (safe_allocate h).bind fun _ b1 h1 => ?_
  obtain ⟨h1, heq⟩ := h1
  rw [← heq] at hlt hfuel ⊢
  refine (safe_step 1 h1 hlt).bind fun _ b2 h2 => ?_
  refine (safe_skipWhitespace h2).bind fun _ b3 h3 => ?_
  refine (safe_parseString h3).bind fun key b4 h4 => ?_
  refine (safe_skipWhitespace h4).bind fun _ b5 h5 => ?_
  refine (safe_looksAt h5 0x3a).bind fun colon b6 h6 => ?_
  obtain ⟨rfl, hcolon⟩ := h6
  have hfrom3 := h3.from_
  have hfrom5 := h5.from_
  cases colon with
  | false => exact Attempt.gives_giveUp trivial
  | true =>
    rw [if_pos rfl]
    refine (safe_step 1 h5 (h5.lt_of_byte (hcolon rfl) (by decide))).bind fun _ b7 h7 => ?_
    refine (safe_skipWhitespace h7).bind fun _ b8 h8 => ?_
    have hfrom8 := h8.from_
    refine (hv b8 _ h8 (by omega)).bind fun item b9 h9 => ?_
    refine (safe_skipWhitespace h9).bind fun _ b10 h10 => ?_
    refine (safe_looksAt h10 0x2c).bind fun more b11 h11 => ?_
    obtain ⟨rfl, hcomma⟩ := h11
    have hfrom10 := h10.from_
    cases more with
    | true =>
      rw [if_pos rfl]
      refine (he b11 _ h10 (h10.lt_of_byte (hcomma rfl) (by decide)) (by omega)).bind
        fun members b12 h12 => ?_
      exact Attempt.gives_pure (h12.mono (by omega))
    | false => exact Attempt.gives_pure (h10.mono (by omega))

theorem safe_parseValue (he : SafeLoop value (parseElements answers) fuel)
    (hm : SafeLoop value (parseMembers answers) fuel) : SafeValue value answers (fuel + 1) := by
  intro b o h hfuel
  rw [parseValue]
  refine Attempt.gives_get.bind fun q b' heq => ?_
  obtain ⟨rfl, rfl⟩ := heq
  -- a word of the grammar is stepped over
  have hword {α : Type} {word : CString} {n : Nat} (a : α) (hs : startsWith b' word = true)
      (hlen : word.strlen = n) (hn : 0 < n) :
      (step n >>= fun _ => pure a : Parse α).Gives b' (fun _ => Inside value (b'.offset + 1))
        fun _ => True := by
    have hle := startsWith_lt h hs (hlen ▸ hn)
    rw [hlen] at hle
    exact (safe_step n h hle).bind fun _ b1 h1 => Attempt.gives_pure (h1.mono (by omega))
  split_ifs with hnull hfalse htrue hacc
  · exact hword _ hnull (by decide +kernel) (by decide)
  · exact hword _ hfalse (by decide +kernel) (by decide)
  · exact hword _ htrue (by decide +kernel) (by decide)
  · refine (safe_byteAt h).bind fun c b1 hc => ?_
    obtain ⟨rfl, hc⟩ := hc
    split_ifs with hquote hdigit harray hobject
    · exact (safe_parseString h).bind fun s b2 h2 => Attempt.gives_pure h2
    · exact safe_parseNumber h
    · -- an array
      have hlt := h.lt_of_byte hc (by rw [harray]; decide)
      refine (safe_enter h).bind fun _ b2 hent => ?_
      have h2 : Inside value o b2 := ⟨hent.1 ▸ h.content, hent.2 ▸ h.from_, hent.2 ▸ h.inside⟩
      rw [← hent.2] at hlt hfuel ⊢
      refine (safe_opened (by decide) h2 hlt).bind fun empty b3 h3 => ?_
      have hfrom := h3.1.from_
      split_ifs
      · exact (safe_leave h3.1 h3.2).bind fun _ b4 h4 => Attempt.gives_pure h4
      · refine (he b3 _ h3.1 h3.2 (by omega)).bind fun items b4 h4 => ?_
        exact (safe_closed (by decide) h4).bind fun _ b5 h5 => Attempt.gives_pure (h5.mono (by omega))
    · -- an object
      have hlt := h.lt_of_byte hc (by rw [hobject]; decide)
      refine (safe_enter h).bind fun _ b2 hent => ?_
      have h2 : Inside value o b2 := ⟨hent.1 ▸ h.content, hent.2 ▸ h.from_, hent.2 ▸ h.inside⟩
      rw [← hent.2] at hlt hfuel ⊢
      refine (safe_opened (by decide) h2 hlt).bind fun empty b3 h3 => ?_
      have hfrom := h3.1.from_
      split_ifs
      · exact (safe_leave h3.1 h3.2).bind fun _ b4 h4 => Attempt.gives_pure h4
      · refine (hm b3 _ h3.1 h3.2 (by omega)).bind fun members b4 h4 => ?_
        exact (safe_closed (by decide) h4).bind fun _ b5 h5 => Attempt.gives_pure (h5.mono (by omega))
    · exact Attempt.gives_giveUp trivial
  · exact Attempt.gives_giveUp trivial

theorem safe_parse (value : CString) (answers : Nat → Bool) (fuel : Nat) :
    SafeValue value answers fuel ∧ SafeLoop value (parseElements answers) fuel ∧
      SafeLoop value (parseMembers answers) fuel := by
  induction fuel with
  | zero =>
    refine ⟨fun b o h hfuel => by omega, fun b o h hlt hfuel => by omega, fun b o h hlt hfuel => by omega⟩
  | succ fuel ih =>
    obtain ⟨hv, he, hm⟩ := ih
    exact ⟨safe_parseValue he hm, safe_parseElements hv he, safe_parseMembers hv hm⟩

theorem safe_skipUtf8Bom (h : Inside value o b) :
    skipUtf8Bom.Gives b (fun _ => Inside value o) fun _ => True := by
  refine Attempt.gives_get.bind fun q b' heq => ?_
  obtain ⟨rfl, rfl⟩ := heq
  split_ifs with hbom
  · have hacc := hbom.1
    rw [canAccess, decide_eq_true_eq, h.length] at hacc
    exact (safe_step 3 h (by omega)).mono (fun _ b1 h1 => h1.mono (h.from_.trans (Nat.le_add_right _ _)))
      fun _ _ => trivial
  · exact Attempt.gives_pure h

/-- Parsing any text ends, reads no byte behind its NUL and writes none behind a block,
whatever the allocator answers. -/
theorem parseWithOpts_safe (answers : Nat → Bool) (value : CString) (requireNullTerminated : Bool) :
    ∃ r, parseWithOpts answers value requireNullTerminated = some r := by
  have hstart : Inside value 0 ⟨value.bytes ++ [0], 0, 0, 0⟩ := ⟨rfl, le_refl _, Nat.zero_le _⟩
  have hfull : value.bytes.length = value.strlen := rfl
  have hgives : (parseText answers value requireNullTerminated).Gives ⟨value.bytes ++ [0], 0, 0, 0⟩
      (fun _ _ => True) fun _ => True := by
    refine (safe_allocate hstart).bind fun _ b1 h1 => ?_
    refine (safe_skipUtf8Bom h1.1).bind fun _ b2 h2 => ?_
    refine (safe_skipWhitespace h2).bind fun _ b3 h3 => ?_
    refine ((safe_parse value answers _).1 b3 0 h3 (by omega)).bind fun item b4 h4 => ?_
    split_ifs
    · refine (safe_skipWhitespace h4).bind fun _ b5 h5 => ?_
      refine (safe_looksAt h5 0).bind fun ended b6 h6 => ?_
      split_ifs
      · exact Attempt.gives_pure trivial
      · exact Attempt.gives_giveUp trivial
    · exact Attempt.gives_pure trivial
  obtain ⟨r, b, hrun, -⟩ := hgives
  exact ⟨r, by rw [parseWithOpts, hrun]; rfl⟩

end Safety

end Tcpkit
