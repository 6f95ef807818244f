import Tcpkit.JsonParse
import Tcpkit.JsonPrint

/-! What the JSON library prints, it reads back: strings with their escapes, numbers to the
last bit, and the nesting of arrays and objects. -/

namespace Tcpkit

open DecimalText ParseBuffer

mutual

def JsonItem.map {ν μ : Type} (f : ν → μ) : JsonItem ν → JsonItem μ
  | .null => .null
  | .bool value => .bool value
  | .number value => .number (f value)
  | .string value => .string value
  | .array items => .array (mapElements f items)
  | .object members => .object (mapMembers f members)

def mapElements {ν μ : Type} (f : ν → μ) : List (JsonItem ν) → List (JsonItem μ)
  | [] => []
  | item :: items => item.map f :: mapElements f items

def mapMembers {ν μ : Type} (f : ν → μ) : List (CString × JsonItem ν) → List (CString × JsonItem μ)
  | [] => []
  | (key, item) :: members => (key, item.map f) :: mapMembers f members

end

/-- The item that reading a text of whole doubles gives. -/
def JsonItem.parsed (item : JsonItem Nat) : ParsedItem := item.map fun v : Nat => Binary64.Double.finite v

mutual

/-- The nesting of arrays and objects stays within `n`, and every number is a double. -/
def JsonItem.Readable : Nat → JsonItem Nat → Prop
  | _, .null => True
  | _, .bool _ => True
  | _, .number v => toDouble v = v ∧ v < 2 ^ 1024
  | _, .string _ => True
  | 0, .array _ => False
  | n + 1, .array items => ReadableElements n items
  | 0, .object _ => False
  | n + 1, .object members => ReadableMembers n members

def ReadableElements : Nat → List (JsonItem Nat) → Prop
  | _, [] => True
  | n, item :: items => item.Readable n ∧ ReadableElements n items

def ReadableMembers : Nat → List (CString × JsonItem Nat) → Prop
  | _, [] => True
  | n, (_, item) :: members => item.Readable n ∧ ReadableMembers n members

end

mutual

theorem JsonItem.Readable.finite : ∀ (item : JsonItem Nat) (n : Nat), item.Readable n → item.Finite
  | .null, _, _ => trivial
  | .bool _, _, _ => trivial
  | .number _, _, h => by
    rw [JsonItem.Readable] at h
    exact h.2
  | .string _, _, _ => trivial
  | .array _, 0, h => by cases h
  | .array items, n + 1, h => ReadableElements.finite items n h
  | .object _, 0, h => by cases h
  | .object members, n + 1, h => ReadableMembers.finite members n h

theorem ReadableElements.finite : ∀ (items : List (JsonItem Nat)) (n : Nat),
    ReadableElements n items → FiniteElements items
  | [], _, _ => trivial
  | item :: items, n, h => ⟨JsonItem.Readable.finite item n h.1, ReadableElements.finite items n h.2⟩

theorem ReadableMembers.finite : ∀ (members : List (CString × JsonItem Nat)) (n : Nat),
    ReadableMembers n members → FiniteMembers members
  | [], _, _ => trivial
  | (_, item) :: members, n, h => ⟨JsonItem.Readable.finite item n h.1, ReadableMembers.finite members n h.2⟩

end

/-- `pre` has been read at nesting `d`, `rest` comes next. -/
structure Before (pre rest : List UInt8) (d : Nat) (b : ParseBuffer) : Prop where
  content : b.content = pre ++ rest
  offset : b.offset = pre.length
  depth : b.depth = d

section Reading

variable {pre rest ws : List UInt8} {d : Nat} {b : ParseBuffer} {c : UInt8} {answers : Nat → Bool}

theorem Before.get (h : Before pre (c :: rest) d b) : b.content[b.offset]? = some c := by
  rw [h.content, h.offset, List.getElem?_append_right (le_refl _), Nat.sub_self]
  rfl

theorem Before.drop (h : Before pre rest d b) : b.content.drop b.offset = rest := by
  rw [h.content, h.offset, List.drop_left]

theorem Before.canAccess (h : Before pre (c :: rest) d b) : b.canAccess 0 = true := by
  rw [ParseBuffer.canAccess, decide_eq_true_eq, h.content, h.offset]
  simp

theorem reads_byteAt (h : Before pre (c :: rest) d b) :
    (byteAt 0).Gives b (fun c' b' => c' = c ∧ b' = b) fun _ => False := by
  refine Attempt.Gives.value (a := c) (t := b) ?_ ⟨rfl, rfl⟩
  simp [byteAt, h.get]

theorem reads_get : (Attempt.get : Parse ParseBuffer).Gives b (fun q b' => q = b ∧ b' = b) fun _ => False :=
  Attempt.gives_get

theorem reads_looksAt (h : Before pre (c :: rest) d b) (c' : UInt8) :
    (looksAt c').Gives b (fun r b' => r = (c == c') ∧ b' = b) fun _ => False := by
  refine reads_get.bind fun q b' heq => ?_
  obtain ⟨rfl, rfl⟩ := heq
  rw [if_pos h.canAccess]
  refine (reads_byteAt h).bind fun c'' b'' heq => ?_
  obtain ⟨rfl, rfl⟩ := heq
  exact Attempt.gives_pure ⟨rfl, rfl⟩

theorem reads_step {t : List UInt8} {n : Nat} (h : Before pre (t ++ rest) d b) (hn : t.length = n) :
    (step n).Gives b (fun _ => Before (pre ++ t) rest d) fun _ => False :=
  Attempt.gives_modify ⟨by simpa using h.content, by simp [h.offset, hn], h.depth⟩

theorem reads_stepBack (h : Before (pre ++ [c]) rest d b) :
    stepBack.Gives b (fun _ => Before pre (c :: rest) d) fun _ => False :=
  Attempt.gives_modify ⟨by simpa using h.content, by simp [h.offset], h.depth⟩

theorem reads_skipWhitespace (ws : List UInt8) (h : Before pre (ws ++ c :: rest) d b)
    (hws : ∀ w ∈ ws, w ≤ 32) (hc : ¬c ≤ 32) :
    skipWhitespace.Gives b (fun _ => Before (pre ++ ws) (c :: rest) d) fun _ => False := by
  have htake : (ws ++ c :: rest).takeWhile (fun w => decide (w ≤ 32)) = ws := by
    rw [List.takeWhile_append_of_pos (by simpa using hws), List.takeWhile_cons_of_neg (by simpa using hc),
      List.append_nil]
  have hlen : ((b.content.drop b.offset).takeWhile (fun w => decide (w ≤ 32))).length = ws.length := by
    rw [h.drop, htake]
  refine Attempt.gives_modify ⟨by simpa using h.content, ?_, h.depth⟩
  simp only [hlen]
  rw [if_neg (by simp [h.content, h.offset]), h.offset, List.length_append]

theorem reads_allocate (hans : ∀ k, answers k = true) (h : Before pre rest d b) :
    (allocate answers).Gives b (fun _ => Before pre rest d) fun _ => False :=
  Attempt.Gives.value (a := ()) (if_pos (hans _)) ⟨h.content, h.offset, h.depth⟩

theorem startsWith_of_head {word : CString} {w : UInt8} {ws : List UInt8} (hw : word.bytes = w :: ws)
    (h : Before pre (c :: rest) d b) (hne : c ≠ w) : startsWith b word = false := by
  have htake : ((c :: rest).take word.strlen == word.bytes) = false := by
    rw [CString.strlen, hw, List.length_cons, List.take_succ_cons, beq_eq_false_iff_ne]
    intro he
    exact hne (List.cons.inj he).1
  rw [startsWith, h.drop, htake, Bool.and_false]

theorem startsWith_self {word : CString} (h : Before pre (word.bytes ++ rest) d b) :
    startsWith b word = true := by
  rw [startsWith, h.drop, Bool.and_eq_true, decide_eq_true_eq, beq_iff_eq, h.content, h.offset]
  simp [CString.strlen]

end Reading

section Strings

variable {pre rest post : List UInt8} {d i k left : Nat} {b : ParseBuffer} {c : UInt8}
  {answers : Nat → Bool}

theorem findEnd_plain (hq : c ≠ 0x22) (hb : c ≠ 0x5c) : findEnd (c :: rest) i k = findEnd rest (i + 1) k := by
  rw [findEnd.eq_def]
  simp [hq, hb]

theorem findEnd_escape (letter : UInt8) :
    findEnd (0x5c :: letter :: rest) i k = findEnd rest (i + 2) (k + 1) := by
  rw [findEnd.eq_def]
  simp

theorem hex4_plain : ∀ w ∈ hex4 c, w ≠ 0x22 ∧ w ≠ 0x5c := by
  have hall : ∀ n < 256, (hex4 (UInt8.ofNat n)).all (fun w => w ≠ 0x22 && w ≠ 0x5c) = true := by
    decide +kernel
  simpa using hall c.toNat c.toNat_lt

theorem findEnd_hex4 : findEnd (hex4 c ++ rest) i k = findEnd rest (i + 4) k := by
  have h := hex4_plain (c := c)
  simp only [hex4, List.forall_mem_cons] at h ⊢
  obtain ⟨h0, h1, h2, h3, -⟩ := h
  simp only [List.cons_append, List.nil_append]
  rw [findEnd_plain h0.1 h0.2, findEnd_plain h1.1 h1.2, findEnd_plain h2.1 h2.2, findEnd_plain h3.1 h3.2]

/-- An escaped byte is passed over as one unit that leaves room for the byte itself. -/
theorem findEnd_escaped (c : UInt8) (rest : List UInt8) (i k : Nat) :
    ∃ n, findEnd (escaped c ++ rest) i k = findEnd rest (i + (escaped c).length) (k + n) ∧
      n + 1 ≤ (escaped c).length := by
  unfold escaped
  cases hl : escapeLetter c with
  | some letter => exact ⟨1, findEnd_escape letter, le_refl _⟩
  | none =>
    by_cases hc : c < 32
    · refine ⟨1, ?_, by simp [hc, hex4]⟩
      simp only [if_pos hc, List.cons_append]
      rw [findEnd_escape, findEnd_hex4]
      rfl
    · have hplain := (plain_iff c).mpr ⟨hl, hc⟩
      refine ⟨0, ?_, by simp [hc]⟩
      simp only [if_neg hc, List.singleton_append]
      rw [findEnd_plain hplain.2.1 hplain.2.2]
      rfl

theorem findEnd_flatMap (s post : List UInt8) (i k : Nat) :
    ∃ n, findEnd (s.flatMap escaped ++ 0x22 :: post) i k =
        some (i + (s.flatMap escaped).length, k + n) ∧ n + s.length ≤ (s.flatMap escaped).length := by
  induction s generalizing i k with
  | nil => exact ⟨0, by rw [findEnd.eq_def]; rfl, le_refl _⟩
  | cons c s ih =>
    obtain ⟨m, hm, hmle⟩ := findEnd_escaped c (s.flatMap escaped ++ 0x22 :: post) i k
    obtain ⟨n, hn, hnle⟩ := ih (i + (escaped c).length) (k + m)
    refine ⟨m + n, ?_, ?_⟩
    · rw [List.flatMap_cons, List.append_assoc, hm, hn, List.length_append, Nat.add_assoc, Nat.add_assoc]
    · rw [List.flatMap_cons, List.length_append, List.length_cons]
      omega

theorem hexLoop_hex4 (c : UInt8) : hexLoop (hex4 c) 0 = some c.toNat := by
  have hall : ∀ n < 256, hexLoop (hex4 (UInt8.ofNat n)) 0 = some n := by decide +kernel
  simpa using hall c.toNat c.toNat_lt

theorem unescapeOne_letter {letter : UInt8} (h : escapeLetter c = some letter) :
    unescapeOne (0x5c :: letter :: rest) left = some (some (2, [c])) := by
  unfold escapeLetter at h
  split_ifs at h with h1 h2 h3 h4 h5 h6 h7 <;> cases h <;> subst_vars <;> rfl

theorem unescapeOne_hex4 (rest : List UInt8) (left : Nat) (hc : c < 32) (hleft : 6 ≤ left) :
    unescapeOne (0x5c :: 0x75 :: (hex4 c ++ rest)) left = some (some (6, [c])) := by
  have hlt : c.toNat < 32 := by simpa [UInt8.lt_iff_toNat_lt] using hc
  have hread : readBytes (0x5c :: 0x75 :: (hex4 c ++ rest)) 2 4 = some (hex4 c) := by
    rw [readBytes_of_le _ (by simp [hex4])]
    simp [hex4]
  have hcode : parseHex4 (hex4 c) = c.toNat := by rw [parseHex4, hexLoop_hex4]; rfl
  have hutf : encodeUtf8 c.toNat = some [c] := by
    rw [encodeUtf8, if_pos (by omega), UInt8.ofNat_toNat]
  have hutf16 : utf16LiteralToUtf8 (0x5c :: 0x75 :: (hex4 c ++ rest)) left = some (some (6, [c])) := by
    unfold utf16LiteralToUtf8
    simp [hread, hcode, hutf, show ¬left < 6 by omega, show ¬0xdc00 ≤ c.toNat by omega,
      show ¬0xd800 ≤ c.toNat by omega]
  rw [← hutf16]
  rfl

theorem unescapeLoop_escaped {capacity fuel : Nat} (c : UInt8) (input output : List UInt8) (left : Nat)
    (hroom : output.length + 1 ≤ capacity) :
    unescapeLoop capacity (fuel + 1) (escaped c ++ input) ((escaped c).length + left) output =
      unescapeLoop capacity fuel input left (output ++ [c]) := by
  unfold escaped
  cases hl : escapeLetter c with
  | some letter =>
    rw [unescapeLoop.eq_def]
    simp [unescapeOne_letter hl, hroom]
  | none =>
    by_cases hc : c < 32
    · have hlen : (0x5c :: 0x75 :: hex4 c).length = 6 := by simp [hex4]
      have hone := unescapeOne_hex4 input (6 + left) hc (Nat.le_add_right _ _)
      simp only [if_pos hc, hlen]
      rw [unescapeLoop.eq_def]
      simp only [List.cons_append] at hone ⊢
      rw [if_neg (by omega), if_neg (by simp), hone]
      simp [hroom, hex4]
    · have hplain := (plain_iff c).mpr ⟨hl, hc⟩
      rw [unescapeLoop.eq_def]
      simp [hc, hplain.2.2, hroom]

theorem unescapeLoop_flatMap (capacity : Nat) (s post output : List UInt8) (fuel : Nat)
    (hroom : output.length + s.length ≤ capacity) (hfuel : (s.flatMap escaped).length ≤ fuel) :
    unescapeLoop capacity fuel (s.flatMap escaped ++ post) (s.flatMap escaped).length output =
      some (some (output ++ s)) := by
  induction s generalizing output fuel with
  | nil => simpa using unescapeLoop_zero capacity fuel post output
  | cons c s ih =>
    rw [List.flatMap_cons, List.length_append] at hfuel
    rw [List.length_cons] at hroom
    have hone := length_escaped c
    obtain ⟨fuel, rfl⟩ : ∃ f, fuel = f + 1 := ⟨fuel - 1, by omega⟩
    rw [List.flatMap_cons, List.append_assoc, List.length_append,
      unescapeLoop_escaped _ _ _ _ (by omega), ih _ _ (by simp; omega) (by omega)]
    simp

theorem cString_bytes (s : CString) : cString s.bytes = s := by
  apply CString.ext
  have h := takeWhile_ne_append (z := []) s.noNul (by simp)
  rwa [List.append_nil] at h

theorem reads_parseString (hans : ∀ k, answers k = true) (s : CString)
    (h : Before pre (quoted s ++ rest) d b) :
    (parseString answers).Gives b (fun r b' => r = s ∧ Before (pre ++ quoted s) rest d b')
      fun _ => False := by
  have hq : quoted s ++ rest = 0x22 :: (s.bytes.flatMap escaped ++ 0x22 :: rest) := by simp [quoted]
  rw [hq] at h
  unfold parseString
  refine (reads_byteAt h).bind fun first b' heq => ?_
  obtain ⟨rfl, rfl⟩ := heq
  rw [if_neg (by simp)]
  refine reads_get.bind fun q b'' heq => ?_
  obtain ⟨rfl, rfl⟩ := heq
  have hdrop : b''.content.drop (b''.offset + 1) = s.bytes.flatMap escaped ++ 0x22 :: rest := by
    rw [← List.drop_drop, h.drop]
    rfl
  obtain ⟨n, hend, hn⟩ := findEnd_flatMap s.bytes rest 0 0
  rw [hdrop, hend]
  refine (reads_allocate hans h).bind fun _ b1 h1 => ?_
  have hloop := unescapeLoop_flatMap ((s.bytes.flatMap escaped).length + 1 - n) s.bytes
    (0x22 :: rest) [] (s.bytes.flatMap escaped).length (by rw [List.length_nil]; omega) (le_refl _)
  refine Attempt.Gives.value (a := s)
    (t := { b1 with offset := b1.offset + (s.bytes.flatMap escaped).length + 2 }) ?_ ⟨rfl, ?_, ?_, h1.depth⟩
  · simp only [unescape, Nat.zero_add, hloop]
    simp [cString_bytes]
  · rw [h1.content, ← hq, List.append_assoc]
  · simp [h1.offset, quoted, Nat.add_assoc]

end Strings

section Values

variable {pre rest ws : List UInt8} {d n v fuel : Nat} {b : ParseBuffer} {c : UInt8}
  {answers : Nat → Bool} {format : Bool}

theorem reads_parseNumber (hv : toDouble v = v) (hfin : v < 2 ^ 1024)
    (h : Before pre (numberText v ++ c :: rest) d b) (hc : isNumberByte c = false) :
    parseNumber.Gives b
      (fun r b' => r = .number (.finite v) ∧ Before (pre ++ numberText v) (c :: rest) d b')
      fun _ => False := by
  have hstring : numberString b = numberText v := by
    rw [numberString, h.drop, List.takeWhile_append_of_pos isNumberByte_numberText,
      List.takeWhile_cons_of_neg (by simp [hc]), List.append_nil]
    have := length_numberText_le hfin
    exact List.take_of_length_le (by omega)
  have hread := strtod_numberText hv hfin
  obtain ⟨x, t, ht, -⟩ := numberText_cons v
  refine Attempt.Gives.value (a := .number (.finite v))
    (t := { b with offset := b.offset + (numberText v).length }) ?_
    ⟨rfl, by simpa using h.content, by simp [h.offset], h.depth⟩
  rw [parseNumber, hstring, hread, if_neg (by simp [ht])]

theorem null_bytes : (CString.literal "null").bytes = [0x6e, 0x75, 0x6c, 0x6c] := by decide +kernel

theorem false_bytes : (CString.literal "false").bytes = [0x66, 0x61, 0x6c, 0x73, 0x65] := by decide +kernel

theorem true_bytes : (CString.literal "true").bytes = [0x74, 0x72, 0x75, 0x65] := by decide +kernel

/-- A printed item starts with a byte that ends the white space in front of it, and is neither
a closing bracket nor the start of a byte order mark. -/
theorem text_cons (item : JsonItem Nat) (format : Bool) (d : Nat) :
    ∃ c t, item.text format d = c :: t ∧ ¬c ≤ 32 ∧ c ≠ 0x5d ∧ c ≠ 0xef := by
  match item with
  | .null => exact ⟨0x6e, _, null_bytes, by decide, by decide, by decide⟩
  | .bool false => exact ⟨0x66, _, false_bytes, by decide, by decide, by decide⟩
  | .bool true => exact ⟨0x74, _, true_bytes, by decide, by decide, by decide⟩
  | .number v =>
    obtain ⟨c, t, ht, hc⟩ := numberText_cons v
    have hrange := isDigit_iff.mp hc
    have hbyte {y : UInt8} (hy : 57 < y.toNat) : c ≠ y := by
      rintro rfl
      omega
    refine ⟨c, t, ht, ?_, hbyte (by decide), hbyte (by decide)⟩
    rw [UInt8.le_iff_toNat_le]
    exact Nat.not_le.mpr (lt_of_lt_of_le (by decide) hrange.1)
  | .string s => exact ⟨0x22, _, rfl, by decide, by decide, by decide⟩
  | .array items => exact ⟨0x5b, _, rfl, by decide, by decide, by decide⟩
  | .object members => exact ⟨0x7b, _, rfl, by decide, by decide, by decide⟩

theorem elementsText_cons {items : List (JsonItem Nat)} (hne : items ≠ []) (format : Bool) (d : Nat) :
    ∃ c t, elementsText format d items = c :: t ∧ ¬c ≤ 32 ∧ c ≠ 0x5d := by
  match items, hne with
  | item :: items, _ =>
    obtain ⟨c, t, h, hspace, hc⟩ := text_cons item format d
    exact ⟨c, _, by rw [elementsText, h, List.cons_append, List.cons_append], hspace, hc.1⟩

theorem reads_enter (h : Before pre rest d b) (hd : d < nestingLimit) :
    enter.Gives b (fun _ => Before pre rest (d + 1)) fun _ => False := by
  refine reads_get.bind fun q b' heq => ?_
  obtain ⟨rfl, rfl⟩ := heq
  rw [if_neg (by rw [h.depth]; omega)]
  exact Attempt.gives_modify ⟨h.content, h.offset, by simp [h.depth]⟩

theorem reads_leave (h : Before pre (c :: rest) (d + 1) b) :
    leave.Gives b (fun _ => Before (pre ++ [c]) rest d) fun _ => False :=
  Attempt.gives_modify ⟨by simpa using h.content, by simp [h.offset], by simp [h.depth]⟩

/-- Behind the bracket and white space there is the closing bracket, or the reader steps back
to the byte in front of what it found. -/
theorem reads_opened_empty (ws : List UInt8) {open' close : UInt8} (hclose : ¬close ≤ 32)
    (h : Before pre (open' :: (ws ++ close :: rest)) d b) (hws : ∀ w ∈ ws, w ≤ 32) :
    (opened close).Gives b (fun r b' => r = true ∧ Before (pre ++ open' :: ws) (close :: rest) d b')
      fun _ => False := by
  refine (reads_step (t := [open']) h rfl).bind fun _ b1 h1 => ?_
  refine (reads_skipWhitespace ws h1 hws hclose).bind fun _ b2 h2 => ?_
  refine (reads_looksAt h2 close).bind fun empty b3 heq => ?_
  obtain ⟨rfl, rfl⟩ := heq
  rw [beq_self_eq_true, if_pos rfl]
  exact Attempt.gives_pure ⟨rfl, by simpa using h2⟩

theorem reads_opened (ws : List UInt8) {open' close : UInt8} (hc : ¬c ≤ 32) (hne : c ≠ close)
    (h : Before pre (open' :: (ws ++ c :: rest)) d b) (hws : ∀ w ∈ ws, w ≤ 32) :
    (opened close).Gives b (fun r b' => r = false ∧ ∃ pre' c', pre ++ open' :: ws = pre' ++ [c'] ∧
      Before pre' (c' :: c :: rest) d b') fun _ => False := by
  refine (reads_step (t := [open']) h rfl).bind fun _ b1 h1 => ?_
  refine (reads_skipWhitespace ws h1 hws hc).bind fun _ b2 h2 => ?_
  refine (reads_looksAt h2 close).bind fun empty b3 heq => ?_
  obtain ⟨rfl, rfl⟩ := heq
  rw [beq_eq_false_iff_ne.mpr hne, if_neg Bool.false_ne_true]
  refine reads_get.bind fun q b' heq => ?_
  obtain ⟨rfl, rfl⟩ := heq
  rw [if_pos h2.canAccess]
  obtain ⟨pre', c', hsplit⟩ := (List.eq_nil_or_concat (pre ++ open' :: ws)).resolve_left (by simp)
  rw [List.concat_eq_append] at hsplit
  rw [List.append_assoc, List.singleton_append, hsplit] at h2
  refine (reads_stepBack h2).bind fun _ b4 h4 => ?_
  exact Attempt.gives_pure ⟨rfl, pre', c', hsplit, h4⟩

theorem reads_closed {close : UInt8} (h : Before pre (close :: rest) (d + 1) b) :
    (closed close).Gives b (fun _ => Before (pre ++ [close]) rest d) fun _ => False := by
  refine (reads_looksAt h close).bind fun there b1 heq => ?_
  obtain ⟨rfl, rfl⟩ := heq
  rw [beq_self_eq_true, if_pos rfl]
  exact reads_leave h

/-- At a byte that starts none of the three words, the byte decides what is read. -/
theorem parseValue_at (h : Before pre (c :: rest) d b) (hn : c ≠ 0x6e) (hf : c ≠ 0x66) (ht : c ≠ 0x74) :
    startsWith b (CString.literal "null") = false ∧ startsWith b (CString.literal "false") = false ∧
      startsWith b (CString.literal "true") = false :=
  ⟨startsWith_of_head null_bytes h hn, startsWith_of_head false_bytes h hf,
    startsWith_of_head true_bytes h ht⟩

theorem reads_word {word : CString} {item : ParsedItem} (h : Before pre (word.bytes ++ rest) d b)
    (hn : word.strlen = n) :
    (step n >>= fun _ => pure item : Parse ParsedItem).Gives b
      (fun r b' => r = item ∧ Before (pre ++ word.bytes) rest d b') fun _ => False :=
  (reads_step h hn).bind fun _ _ h1 => Attempt.gives_pure ⟨rfl, h1⟩

theorem separator_eq (format : Bool) :
    ∃ ws, separator format = 0x2c :: ws ∧ ∀ w ∈ ws, w ≤ 32 := by
  cases format with
  | false => exact ⟨[], rfl, by simp⟩
  | true => exact ⟨[0x20], rfl, by simp⟩

theorem le_space_lineEnd (format : Bool) : ∀ w ∈ lineEnd format, w ≤ 32 := by
  cases format <;> simp [lineEnd]

theorem le_space_tabs (format : Bool) (d : Nat) : ∀ w ∈ tabs format d, w ≤ 32 := by
  intro w hw
  unfold tabs at hw
  split_ifs at hw
  · rw [List.eq_of_mem_replicate hw]
    decide
  · cases hw

theorem colon_eq (format : Bool) : ∃ ws, colon format = 0x3a :: ws ∧ ∀ w ∈ ws, w ≤ 32 := by
  cases format with
  | false => exact ⟨[], rfl, by simp⟩
  | true => exact ⟨[0x09], rfl, by simp⟩

/-- A value is read from its text when a byte follows that belongs to no number. -/
def ReadsValue (answers : Nat → Bool) (format : Bool) (item : JsonItem Nat) : Prop :=
  ∀ (n d depth fuel : Nat) (pre rest : List UInt8) (c : UInt8) (b : ParseBuffer), item.Readable n →
    n + depth ≤ nestingLimit → isNumberByte c = false →
    Before pre (item.text format d ++ c :: rest) depth b →
    2 * (item.text format d ++ c :: rest).length < fuel →
    (parseValue answers fuel).Gives b
      (fun r b' => r = item.parsed ∧ Before (pre ++ item.text format d) (c :: rest) depth b') fun _ => False

/-- The elements are read from the byte in front of the first one up to the closing bracket. -/
def ReadsElements (answers : Nat → Bool) (format : Bool) (items : List (JsonItem Nat)) : Prop :=
  ∀ (n d depth fuel : Nat) (pre ws rest : List UInt8) (c : UInt8) (b : ParseBuffer),
    ReadableElements n items → n + depth ≤ nestingLimit → (∀ w ∈ ws, w ≤ 32) →
    Before pre (c :: (ws ++ (elementsText format d items ++ 0x5d :: rest))) depth b →
    2 * (c :: (ws ++ (elementsText format d items ++ 0x5d :: rest))).length ≤ fuel →
    (parseElements answers fuel).Gives b
      (fun r b' => r = mapElements (fun v : Nat => Binary64.Double.finite v) items ∧
        Before (pre ++ c :: (ws ++ elementsText format d items)) (0x5d :: rest) depth b') fun _ => False

/-- Over white space to a value and over the value, up to the byte `k` behind it. -/
theorem reads_spacedValue {item : JsonItem Nat} {k : UInt8}
    {r : List UInt8} (hv : ReadsValue answers format item)
    {depth : Nat} (hread : item.Readable n) (hdepth : n + depth ≤ nestingLimit)
    (hws : ∀ w ∈ ws, w ≤ 32) (hk : isNumberByte k = false)
    (h : Before pre (ws ++ (item.text format d ++ k :: r)) depth b)
    (hfuel : 2 * (item.text format d ++ k :: r).length < fuel) {β : Type} {f : ParsedItem → Parse β}
    {next : β → ParseBuffer → Prop}
    (hf : ∀ b', Before (pre ++ (ws ++ item.text format d)) (k :: r) depth b' →
      (f item.parsed).Gives b' next fun _ => False) :
    (skipWhitespace >>= fun _ => parseValue answers fuel >>= f : Parse β).Gives b next fun _ => False := by
  obtain ⟨x, t, hx, hspace, -⟩ := text_cons item format d
  have hskip := h
  rw [hx, List.cons_append] at hskip
  refine (reads_skipWhitespace _ hskip hws hspace).bind fun _ b1 h1 => ?_
  rw [← List.cons_append, ← hx] at h1
  refine (hv n d depth fuel _ r k b1 hread hdepth hk h1 hfuel).bind fun y b2 h2 => ?_
  obtain ⟨rfl, h2⟩ := h2
  exact hf b2 (by simpa using h2)

theorem readsElements_cons (hans : ∀ k, answers k = true) {item : JsonItem Nat} {items : List (JsonItem Nat)}
    (hv : ReadsValue answers format item) (he : items ≠ [] → ReadsElements answers format items) :
    ReadsElements answers format (item :: items) := by
  intro n d depth fuel pre ws rest c b hread hdepth hws h hfuel
  obtain ⟨fuel, rfl⟩ : ∃ f, fuel = f + 1 := ⟨fuel - 1, by simp only [List.length_cons] at hfuel; omega⟩
  rw [parseElements]
  refine (reads_allocate hans h).bind fun _ b1 h1 => ?_
  refine (reads_step (t := [c]) h1 rfl).bind fun _ b2 h2 => ?_
  by_cases hlast : items = []
  · subst hlast
    simp only [elementsText, if_true, List.append_nil] at h2 hfuel ⊢
    refine reads_spacedValue hv hread.1 hdepth hws (by decide) h2
      (by simp only [List.length_cons, List.length_append] at hfuel ⊢; omega) fun b3 h3 => ?_
    refine (reads_skipWhitespace [] h3 (by simp) (by decide)).bind fun _ b4 h4 => ?_
    refine (reads_looksAt h4 0x2c).bind fun more b5 heq => ?_
    obtain ⟨rfl, rfl⟩ := heq
    exact Attempt.gives_pure ⟨rfl, by simpa using h4⟩
  · obtain ⟨ws', hsep, hws'⟩ := separator_eq format
    simp only [elementsText, if_neg hlast, hsep, List.append_assoc, List.cons_append] at h2 hfuel ⊢
    refine reads_spacedValue hv hread.1 hdepth hws (by decide) h2
      (by simp only [List.length_cons, List.length_append] at hfuel ⊢; omega) fun b3 h3 => ?_
    refine (reads_skipWhitespace [] h3 (by simp) (by decide)).bind fun _ b4 h4 => ?_
    refine (reads_looksAt h4 0x2c).bind fun more b5 heq => ?_
    obtain ⟨rfl, rfl⟩ := heq
    rw [beq_self_eq_true, if_pos rfl]
    refine (he hlast n d depth fuel _ ws' rest 0x2c b5 hread.2 hdepth hws' h4
      (by simp only [List.length_cons, List.length_append] at hfuel ⊢; omega)).bind fun r b6 h6 => ?_
    obtain ⟨rfl, h6⟩ := h6
    exact Attempt.gives_pure ⟨rfl, by simpa using h6⟩

/-- The text of members behind the indentation of the first one. -/
def membersBody (format : Bool) (d : Nat) : List (CString × JsonItem Nat) → List UInt8
  | [] => []
  | (key, item) :: members => quoted key ++ (colon format ++ (item.text format d ++
      (memberEnd format members ++ membersText format d members)))

theorem membersText_eq {members : List (CString × JsonItem Nat)} (h : members ≠ []) :
    membersText format d members = tabs format d ++ membersBody format d members := by
  match members, h with
  | (key, item) :: members, _ => simp [membersText, membersBody]

theorem notNumber_of_space {w : UInt8} (h : w ≤ 32) : isNumberByte w = false := by
  have hall : ∀ n < 256, UInt8.ofNat n ≤ 32 → isNumberByte (UInt8.ofNat n) = false := by decide +kernel
  simpa using hall w.toNat w.toNat_lt (by simpa using h)

theorem spaced_cons (hws : ∀ w ∈ ws, w ≤ 32) (hc : isNumberByte c = false) (rest : List UInt8) :
    ∃ k r, ws ++ c :: rest = k :: r ∧ isNumberByte k = false := by
  cases ws with
  | nil => exact ⟨c, rest, rfl, hc⟩
  | cons w ws => exact ⟨w, _, rfl, notNumber_of_space (hws w List.mem_cons_self)⟩

/-- The members are read from the byte in front of the first key up to the closing bracket. -/
def ReadsMembers (answers : Nat → Bool) (format : Bool) (members : List (CString × JsonItem Nat)) : Prop :=
  ∀ (n d depth fuel : Nat) (pre ws behind rest : List UInt8) (c : UInt8) (b : ParseBuffer),
    ReadableMembers n members → n + depth ≤ nestingLimit → (∀ w ∈ ws, w ≤ 32) → (∀ w ∈ behind, w ≤ 32) →
    Before pre (c :: (ws ++ (membersBody format d members ++ (behind ++ 0x7d :: rest)))) depth b →
    2 * (c :: (ws ++ (membersBody format d members ++ (behind ++ 0x7d :: rest)))).length ≤ fuel →
    (parseMembers answers fuel).Gives b
      (fun r b' => r = mapMembers (fun v : Nat => Binary64.Double.finite v) members ∧
        Before (pre ++ c :: (ws ++ (membersBody format d members ++ behind))) (0x7d :: rest) depth b')
      fun _ => False

theorem readsMembers_cons (hans : ∀ k, answers k = true) {key : CString} {item : JsonItem Nat}
    {members : List (CString × JsonItem Nat)} (hv : ReadsValue answers format item)
    (hm : members ≠ [] → ReadsMembers answers format members) :
    ReadsMembers answers format ((key, item) :: members) := by
  intro n d depth fuel pre ws behind rest c b hread hdepth hws hbehind h hfuel
  obtain ⟨fuel, rfl⟩ : ∃ f, fuel = f + 1 := ⟨fuel - 1, by simp only [List.length_cons] at hfuel; omega⟩
  rw [parseMembers]
  refine (reads_allocate hans h).bind fun _ b1 h1 => ?_
  refine (reads_step (t := [c]) h1 rfl).bind fun _ b2 h2 => ?_
  obtain ⟨cs, hcolon, hcs⟩ := colon_eq format
  have hquoted : quoted key = 0x22 :: (key.bytes.flatMap escaped ++ [0x22]) := rfl
  simp only [membersBody, hcolon, List.append_assoc, List.cons_append] at h2 hfuel ⊢
  have hskip := h2
  rw [hquoted, List.cons_append] at hskip
  refine (reads_skipWhitespace _ hskip hws (by decide)).bind fun _ b3 h3 => ?_
  rw [← List.cons_append, ← hquoted] at h3
  refine (reads_parseString hans key h3).bind fun key' b4 h4 => ?_
  obtain ⟨rfl, h4⟩ := h4
  refine (reads_skipWhitespace [] h4 (by simp) (by decide)).bind fun _ b5 h5 => ?_
  refine (reads_looksAt h5 0x3a).bind fun there b6 heq => ?_
  obtain ⟨rfl, rfl⟩ := heq
  rw [beq_self_eq_true, if_pos rfl]
  refine (reads_step (t := [0x3a]) h5 rfl).bind fun _ b7 h7 => ?_
  by_cases hlast : members = []
  · subst hlast
    have hspace : ∀ w ∈ lineEnd format ++ behind, w ≤ 32 := by
      intro w hw
      exact (List.mem_append.mp hw).elim (le_space_lineEnd format w) (hbehind w)
    have hend : memberEnd format [] = lineEnd format := rfl
    simp only [hend, membersText, List.nil_append] at h7 hfuel ⊢
    obtain ⟨k, r, hkr, hk⟩ := spaced_cons hspace (c := 0x7d) (by decide) rest
    rw [List.append_assoc] at hkr
    have hlen := congrArg List.length hkr
    rw [hkr] at h7
    refine reads_spacedValue hv hread.1 hdepth hcs hk h7
      (by simp only [List.length_cons, List.length_append] at hfuel hlen ⊢; omega) fun b8 h8 => ?_
    rw [← hkr, ← List.append_assoc (lineEnd format)] at h8
    refine (reads_skipWhitespace _ h8 hspace (by decide)).bind fun _ b9 h9 => ?_
    refine (reads_looksAt h9 0x2c).bind fun more b10 heq => ?_
    obtain ⟨rfl, rfl⟩ := heq
    exact Attempt.gives_pure ⟨rfl, by simpa using h9⟩
  · have hspace : ∀ w ∈ lineEnd format ++ tabs format d, w ≤ 32 := by
      intro w hw
      exact (List.mem_append.mp hw).elim (le_space_lineEnd format w) (le_space_tabs format d w)
    have hend : memberEnd format members = 0x2c :: lineEnd format := by simp [memberEnd, hlast]
    simp only [hend, membersText_eq hlast, List.append_assoc, List.cons_append] at h7 hfuel ⊢
    refine reads_spacedValue hv hread.1 hdepth hcs (by decide) h7
      (by simp only [List.length_cons, List.length_append] at hfuel ⊢; omega) fun b8 h8 => ?_
    refine (reads_skipWhitespace [] h8 (by simp) (by decide)).bind fun _ b9 h9 => ?_
    refine (reads_looksAt h9 0x2c).bind fun more b10 heq => ?_
    obtain ⟨rfl, rfl⟩ := heq
    rw [beq_self_eq_true, if_pos rfl]
    rw [← List.append_assoc (lineEnd format)] at h9
    refine (hm hlast n d depth fuel _ _ behind rest 0x2c b10 hread.2 hdepth hspace hbehind h9
      (by simp only [List.length_cons, List.length_append] at hfuel ⊢; omega)).bind fun r b11 h11 => ?_
    obtain ⟨rfl, h11⟩ := h11
    exact Attempt.gives_pure ⟨rfl, by simpa using h11⟩

theorem readsArray {items : List (JsonItem Nat)} (he : items ≠ [] → ReadsElements answers format items) :
    ReadsValue answers format (.array items) := by
  intro n d depth fuel pre rest c b hread hdepth hc h hfuel
  obtain ⟨n, rfl⟩ : ∃ m, n = m + 1 := by
    cases n with
    | zero => cases hread
    | succ n => exact ⟨n, rfl⟩
  obtain ⟨fuel, rfl⟩ : ∃ f, fuel = f + 1 := ⟨fuel - 1, by omega⟩
  simp only [JsonItem.text, List.cons_append, List.append_assoc, List.nil_append] at h hfuel ⊢
  rw [parseValue]
  refine reads_get.bind fun q b' heq => ?_
  obtain ⟨rfl, rfl⟩ := heq
  obtain ⟨hn, hf, ht⟩ := parseValue_at h (by decide) (by decide) (by decide)
  rw [if_neg (by simp [hn]), if_neg (by simp [hf]), if_neg (by simp [ht]), if_pos h.canAccess]
  refine (reads_byteAt h).bind fun x b1 heq => ?_
  obtain ⟨rfl, rfl⟩ := heq
  rw [if_neg (by decide), if_neg (by decide), if_pos rfl]
  refine (reads_enter h (by unfold nestingLimit at hdepth ⊢; omega)).bind fun _ b2 h2 => ?_
  by_cases hempty : items = []
  · subst hempty
    simp only [elementsText, List.nil_append] at h2 ⊢
    refine (reads_opened_empty [] (by decide) h2 (by simp)).bind fun r b3 h3 => ?_
    obtain ⟨rfl, h3⟩ := h3
    rw [if_pos rfl]
    refine (reads_leave h3).bind fun _ b4 h4 => ?_
    exact Attempt.gives_pure ⟨rfl, by simpa using h4⟩
  · obtain ⟨x, t, hx, hspace, hne⟩ := elementsText_cons hempty format (d + 1)
    have hopen := h2
    rw [hx, List.cons_append] at hopen
    refine (reads_opened [] hspace hne hopen (by simp)).bind fun r b3 h3 => ?_
    obtain ⟨rfl, pre', c', hsplit, h3⟩ := h3
    rw [if_neg Bool.false_ne_true]
    rw [← List.cons_append, ← hx] at h3
    refine (he hempty n (d + 1) (depth + 1) fuel pre' [] (c :: rest) c' b3 hread (by omega)
      (by simp) h3 (by simp only [List.length_cons, List.length_append,
        List.length_nil] at hfuel ⊢; omega)).bind
      fun r b4 h4 => ?_
    obtain ⟨rfl, h4⟩ := h4
    refine (reads_closed h4).bind fun _ b5 h5 => ?_
    refine Attempt.gives_pure ⟨rfl, ?_⟩
    rw [List.nil_append, ← List.singleton_append, ← List.append_assoc, ← hsplit] at h5
    simpa using h5

theorem membersBody_cons {members : List (CString × JsonItem Nat)} (hne : members ≠ []) (format : Bool)
    (d : Nat) : ∃ t, membersBody format d members = 0x22 :: t := by
  match members, hne with
  | (key, item) :: members, _ => exact ⟨_, rfl⟩

theorem readsObject {members : List (CString × JsonItem Nat)}
    (hm : members ≠ [] → ReadsMembers answers format members) :
    ReadsValue answers format (.object members) := by
  intro n d depth fuel pre rest c b hread hdepth hc h hfuel
  obtain ⟨n, rfl⟩ : ∃ m, n = m + 1 := by
    cases n with
    | zero => cases hread
    | succ n => exact ⟨n, rfl⟩
  obtain ⟨fuel, rfl⟩ : ∃ f, fuel = f + 1 := ⟨fuel - 1, by omega⟩
  simp only [JsonItem.text, List.cons_append, List.append_assoc, List.nil_append] at h hfuel ⊢
  rw [parseValue]
  refine reads_get.bind fun q b' heq => ?_
  obtain ⟨rfl, rfl⟩ := heq
  obtain ⟨hn, hf, ht⟩ := parseValue_at h (by decide) (by decide) (by decide)
  rw [if_neg (by simp [hn]), if_neg (by simp [hf]), if_neg (by simp [ht]), if_pos h.canAccess]
  refine (reads_byteAt h).bind fun x b1 heq => ?_
  obtain ⟨rfl, rfl⟩ := heq
  rw [if_neg (by decide), if_neg (by decide), if_neg (by decide), if_pos rfl]
  refine (reads_enter h (by unfold nestingLimit at hdepth ⊢; omega)).bind fun _ b2 h2 => ?_
  by_cases hempty : members = []
  · subst hempty
    have hspace : ∀ w ∈ lineEnd format ++ tabs format d, w ≤ 32 := by
      intro w hw
      exact (List.mem_append.mp hw).elim (le_space_lineEnd format w) (le_space_tabs format d w)
    simp only [membersText, List.nil_append] at h2 ⊢
    rw [← List.append_assoc (lineEnd format)] at h2
    refine (reads_opened_empty _ (by decide) h2 hspace).bind fun r b3 h3 => ?_
    obtain ⟨rfl, h3⟩ := h3
    rw [if_pos rfl]
    refine (reads_leave h3).bind fun _ b4 h4 => ?_
    exact Attempt.gives_pure ⟨rfl, by simpa using h4⟩
  · have hspace : ∀ w ∈ lineEnd format ++ tabs format (d + 1), w ≤ 32 := by
      intro w hw
      exact (List.mem_append.mp hw).elim (le_space_lineEnd format w) (le_space_tabs format (d + 1) w)
    obtain ⟨t, hx⟩ := membersBody_cons hempty format (d + 1)
    simp only [membersText_eq hempty, List.append_assoc] at h2 hfuel ⊢
    rw [← List.append_assoc (lineEnd format)] at h2
    have hopen := h2
    rw [hx, List.cons_append] at hopen
    refine (reads_opened _ (by decide) (by decide) hopen hspace).bind fun r b3 h3 => ?_
    obtain ⟨rfl, pre', c', hsplit, h3⟩ := h3
    rw [if_neg Bool.false_ne_true]
    rw [← List.cons_append, ← hx] at h3
    refine (hm hempty n (d + 1) (depth + 1) fuel pre' [] (tabs format d) (c :: rest) c' b3 hread (by omega)
      (by simp) (le_space_tabs format d) h3
      (by simp only [List.length_cons, List.length_append, List.length_nil] at hfuel ⊢; omega)).bind
      fun r b4 h4 => ?_
    obtain ⟨rfl, h4⟩ := h4
    refine (reads_closed h4).bind fun _ b5 h5 => ?_
    refine Attempt.gives_pure ⟨rfl, ?_⟩
    rw [List.nil_append, ← List.singleton_append, ← List.append_assoc pre', ← hsplit] at h5
    simpa using h5

theorem readsNull : ReadsValue answers format .null := by
  intro n d depth fuel pre rest c b _ _ _ h hfuel
  obtain ⟨fuel, rfl⟩ : ∃ f, fuel = f + 1 := ⟨fuel - 1, by omega⟩
  rw [parseValue]
  refine reads_get.bind fun q b' heq => ?_
  obtain ⟨rfl, rfl⟩ := heq
  rw [if_pos (startsWith_self h)]
  exact reads_word h (by decide +kernel)

theorem readsFalse : ReadsValue answers format (.bool false) := by
  intro n d depth fuel pre rest c b _ _ _ h hfuel
  obtain ⟨fuel, rfl⟩ : ∃ f, fuel = f + 1 := ⟨fuel - 1, by omega⟩
  rw [parseValue]
  refine reads_get.bind fun q b' heq => ?_
  obtain ⟨rfl, rfl⟩ := heq
  have hhead := h
  rw [JsonItem.text, false_bytes] at hhead
  rw [if_neg (by simp [startsWith_of_head null_bytes hhead (by decide)]), if_pos (startsWith_self h)]
  exact reads_word h (by decide +kernel)

theorem readsTrue : ReadsValue answers format (.bool true) := by
  intro n d depth fuel pre rest c b _ _ _ h hfuel
  obtain ⟨fuel, rfl⟩ : ∃ f, fuel = f + 1 := ⟨fuel - 1, by omega⟩
  rw [parseValue]
  refine reads_get.bind fun q b' heq => ?_
  obtain ⟨rfl, rfl⟩ := heq
  have hhead := h
  rw [JsonItem.text, true_bytes] at hhead
  rw [if_neg (by simp [startsWith_of_head null_bytes hhead (by decide)]),
    if_neg (by simp [startsWith_of_head false_bytes hhead (by decide)]), if_pos (startsWith_self h)]
  exact reads_word h (by decide +kernel)

theorem readsNumber {v : Nat} : ReadsValue answers format (.number v) := by
  intro n d depth fuel pre rest c b hread _ hc h hfuel
  obtain ⟨fuel, rfl⟩ : ∃ f, fuel = f + 1 := ⟨fuel - 1, by omega⟩
  rw [JsonItem.Readable] at hread
  obtain ⟨hv, hfin⟩ := hread
  obtain ⟨x, t, hx, hdigit⟩ := numberText_cons v
  have hrange := isDigit_iff.mp hdigit
  have hbyte {y : UInt8} (hy : 57 < y.toNat ∨ y.toNat < 48) : x ≠ y := by
    rintro rfl
    omega
  have hdig : x = 0x2d ∨ (0x30 ≤ x ∧ x ≤ 0x39) := by
    simpa [isDigit] using Or.inr (a := x = 0x2d) hdigit
  have hhead := h
  rw [JsonItem.text, hx, List.cons_append] at hhead
  obtain ⟨hn, hf, ht⟩ := parseValue_at hhead (hbyte (by decide)) (hbyte (by decide)) (hbyte (by decide))
  rw [parseValue]
  refine reads_get.bind fun q b' heq => ?_
  obtain ⟨rfl, rfl⟩ := heq
  rw [if_neg (by simp [hn]), if_neg (by simp [hf]), if_neg (by simp [ht]), if_pos hhead.canAccess]
  refine (reads_byteAt hhead).bind fun y b1 heq => ?_
  obtain ⟨rfl, rfl⟩ := heq
  rw [if_neg (hbyte (by decide)), if_pos hdig]
  exact reads_parseNumber hv hfin h hc

theorem readsString (hans : ∀ k, answers k = true) {s : CString} :
    ReadsValue answers format (.string s) := by
  intro n d depth fuel pre rest c b _ _ _ h hfuel
  obtain ⟨fuel, rfl⟩ : ∃ f, fuel = f + 1 := ⟨fuel - 1, by omega⟩
  have hhead := h
  rw [JsonItem.text, quoted, List.cons_append] at hhead
  obtain ⟨hn, hf, ht⟩ := parseValue_at hhead (by decide) (by decide) (by decide)
  rw [parseValue]
  refine reads_get.bind fun q b' heq => ?_
  obtain ⟨rfl, rfl⟩ := heq
  rw [if_neg (by simp [hn]), if_neg (by simp [hf]), if_neg (by simp [ht]), if_pos hhead.canAccess]
  refine (reads_byteAt hhead).bind fun y b1 heq => ?_
  obtain ⟨rfl, rfl⟩ := heq
  rw [if_pos rfl]
  refine (reads_parseString hans s h).bind fun r b2 h2 => ?_
  obtain ⟨rfl, h2⟩ := h2
  exact Attempt.gives_pure ⟨rfl, h2⟩

mutual

theorem readsValue (hans : ∀ k, answers k = true) (format : Bool) :
    ∀ item : JsonItem Nat, ReadsValue answers format item
  | .null => readsNull
  | .bool false => readsFalse
  | .bool true => readsTrue
  | .number _ => readsNumber
  | .string _ => readsString hans
  | .array items => readsArray (readsElements hans format items)
  | .object members => readsObject (readsMembers hans format members)

theorem readsElements (hans : ∀ k, answers k = true) (format : Bool) :
    ∀ items : List (JsonItem Nat), items ≠ [] → ReadsElements answers format items
  | [], h => absurd rfl h
  | item :: items, _ => readsElements_cons hans (readsValue hans format item)
    (readsElements hans format items)

theorem readsMembers (hans : ∀ k, answers k = true) (format : Bool) :
    ∀ members : List (CString × JsonItem Nat), members ≠ [] → ReadsMembers answers format members
  | [], h => absurd rfl h
  | (_, item) :: members, _ =>
    readsMembers_cons hans (readsValue hans format item) (readsMembers hans format members)

end

theorem zero_notMem_numberText (v : Nat) : 0 ∉ numberText v := fun h =>
  absurd (isNumberByte_numberText 0 h) (by decide)

theorem zero_notMem_layout (format : Bool) (d : Nat) :
    0 ∉ separator format ∧ 0 ∉ lineEnd format ∧ 0 ∉ tabs format d ∧ 0 ∉ colon format := by
  cases format <;> simp [separator, lineEnd, tabs, colon, List.mem_replicate]

mutual

theorem zero_notMem_text (format : Bool) : ∀ (item : JsonItem Nat) (d : Nat), 0 ∉ item.text format d
  | .null, _ => (CString.literal "null").noNul
  | .bool false, _ => (CString.literal "false").noNul
  | .bool true, _ => (CString.literal "true").noNul
  | .number v, _ => zero_notMem_numberText v
  | .string s, _ => zero_notMem_quoted s
  | .array items, d => by
    simp [JsonItem.text, zero_notMem_elementsText format items (d + 1)]
  | .object members, d => by
    have hl := zero_notMem_layout format d
    simp [JsonItem.text, zero_notMem_membersText format members (d + 1), hl]

theorem zero_notMem_elementsText (format : Bool) :
    ∀ (items : List (JsonItem Nat)) (d : Nat), 0 ∉ elementsText format d items
  | [], _ => by simp [elementsText]
  | item :: items, d => by
    have hl := (zero_notMem_layout format d).1
    have hsep : 0 ∉ (if items = [] then [] else separator format) := by
      split_ifs
      · simp
      · exact hl
    simp [elementsText, zero_notMem_text format item d, hsep, zero_notMem_elementsText format items d]

theorem zero_notMem_membersText (format : Bool) :
    ∀ (members : List (CString × JsonItem Nat)) (d : Nat), 0 ∉ membersText format d members
  | [], _ => by simp [membersText]
  | (key, item) :: members, d => by
    obtain ⟨-, hend, htabs, hcolon⟩ := zero_notMem_layout format d
    have hmember : 0 ∉ memberEnd format members := by
      unfold memberEnd
      split_ifs <;> simp [hend]
    simp [membersText, htabs, zero_notMem_quoted key, hcolon, zero_notMem_text format item d, hmember,
      zero_notMem_membersText format members d]

end

/-- The text of an item as a C string. -/
def JsonItem.print (format : Bool) (item : JsonItem Nat) : CString :=
  ⟨item.text format 0, zero_notMem_text format item 0⟩

theorem reads_skipUtf8Bom (h : Before pre (c :: rest) d b) (hc : c ≠ 0xef) :
    skipUtf8Bom.Gives b (fun _ => Before pre (c :: rest) d) fun _ => False := by
  refine reads_get.bind fun q b' heq => ?_
  obtain ⟨rfl, rfl⟩ := heq
  have hbom : ¬(b'.content.drop b'.offset).take 3 = [0xef, 0xbb, 0xbf] := by
    rw [h.drop, List.take_succ_cons]
    exact fun he => hc (List.cons.inj he).1
  rw [if_neg fun hand => hbom hand.2]
  exact Attempt.gives_pure h

/-- The terminating NUL counts as white space, but the reader stays on it. -/
theorem reads_skipToEnd (h : Before pre [0] d b) :
    skipWhitespace.Gives b (fun _ => Before pre [0] d) fun _ => False := by
  have hlen : ((b.content.drop b.offset).takeWhile (fun w => decide (w ≤ 32))).length = 1 := by
    rw [h.drop]
    rfl
  refine Attempt.gives_modify ⟨h.content, ?_, h.depth⟩
  simp only [hlen]
  rw [if_pos (by simp [h.content, h.offset]), h.offset]
  rfl

theorem parseWithOpts_print (hans : ∀ k, answers k = true) {item : JsonItem Nat}
    (hread : item.Readable nestingLimit) (format requireNullTerminated : Bool) :
    parseWithOpts answers (item.print format) requireNullTerminated = some (some item.parsed) := by
  obtain ⟨c, t, hx, hspace, -, hbom⟩ := text_cons item format 0
  have hlen : (item.text format 0).length = (item.print format).strlen := rfl
  have hstart : Before [] (item.text format 0 ++ [0]) 0 ⟨(item.print format).bytes ++ [0], 0, 0, 0⟩ :=
    ⟨rfl, rfl, rfl⟩
  have hhead := hstart
  rw [hx, List.cons_append] at hhead
  have hgives : (parseText answers (item.print format) requireNullTerminated).Gives
      ⟨(item.print format).bytes ++ [0], 0, 0, 0⟩ (fun r _ => r = item.parsed) fun _ => False := by
    refine (reads_allocate hans hhead).bind fun _ b1 h1 => ?_
    refine (reads_skipUtf8Bom h1 hbom).bind fun _ b2 h2 => ?_
    refine (reads_skipWhitespace [] h2 (by simp) hspace).bind fun _ b3 h3 => ?_
    rw [← List.cons_append, ← hx] at h3
    refine (readsValue hans format item nestingLimit 0 0 _ _ [] 0 b3 hread (le_refl _) (by decide) h3
      (by simp only [List.length_append, List.length_singleton]; omega)).bind fun r b4 h4 => ?_
    obtain ⟨rfl, h4⟩ := h4
    split_ifs
    · refine (reads_skipToEnd h4).bind fun _ b5 h5 => ?_
      refine (reads_looksAt h5 0).bind fun ended b6 heq => ?_
      obtain ⟨rfl, rfl⟩ := heq
      rw [beq_self_eq_true, if_pos rfl]
      exact Attempt.gives_pure rfl
    · exact Attempt.gives_pure rfl
  obtain ⟨r, b, hrun, hr⟩ := hgives
  cases r with
  | none => exact absurd hr id
  | some r =>
    rw [parseWithOpts, hrun, ← hr]
    rfl

/-- `cJSON_Parse` gives back the item that was printed, formatted or not: the nesting within
the limit, every string byte for byte and every whole double exactly. -/
theorem cJsonParse_print (answers : Nat → Bool) (hans : ∀ k, answers k = true) (item : JsonItem Nat)
    (hread : item.Readable nestingLimit) (format : Bool) :
    cJsonParse answers (item.print format) = some (some item.parsed) :=
  parseWithOpts_print hans hread format false

theorem cJsonParse_print_pair :
    cJsonParse (fun _ => true) ((JsonItem.array [.number 5, .string (CString.literal "ms")]).print true) =
      some (some (.array [.number (.finite 5), .string (CString.literal "ms")])) :=
  have hfive : 5 < 2 ^ 1024 := (by decide : 5 < 10 ^ 15).trans_le (pow_le_limit (by decide))
  have hread : (JsonItem.array [.number 5, .string (CString.literal "ms")]).Readable nestingLimit :=
    ⟨⟨toDouble_of_lt (by decide), hfive⟩, trivial, trivial⟩
  cJsonParse_print _ (fun _ => rfl) _ hread true

end Values

end Tcpkit
