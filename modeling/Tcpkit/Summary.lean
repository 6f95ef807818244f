import Tcpkit.Protocol
import Tcpkit.Segments

/-! The summaries that the formatters of `protocol.c` print, compared with a
reference that builds the whole line first and cuts it once. -/

namespace Tcpkit

open Segments

def crlfSegments (p : List UInt8) : List (List UInt8) := segments 0x0d 0x0a p

def sanitize (text : List UInt8) : List UInt8 := text.map printable

/-- The line made of the given pieces, or the bytes themselves when it is empty,
cut at 127 bytes. -/
def summaryOf (p : List UInt8) (pieces : List (List UInt8)) : List UInt8 :=
  if sanitize (joinLine 0x20 pieces) = [] then (sanitize p).take 127
  else (sanitize (joinLine 0x20 pieces)).take 127

/-- The pieces at the indices 2, 4, 6 and so on. -/
def arguments (pieces : List (List UInt8)) : List (List UInt8) :=
  (pieces.zipIdx.filter (fun x => 2 ≤ x.2 ∧ x.2 % 2 = 0)).map Prod.fst

def rawSummary (p : List UInt8) : List UInt8 := (sanitize p).take 127

def memcachedSummary (p : List UInt8) : List UInt8 := summaryOf p (crlfSegments p)

def redisSummary (p : List UInt8) : List UInt8 :=
  if p.head? = some 0x2a then summaryOf p (arguments (crlfSegments p)) else memcachedSummary p

def isArgument (fields : Nat) : Bool := fields ≠ 0 ∧ fields % 2 = 0

theorem arguments_eq_pick (pieces : List (List UInt8)) :
    arguments pieces = pick isArgument 0 pieces := by
  have he : (fun x : List UInt8 × Nat => decide (2 ≤ x.2 ∧ x.2 % 2 = 0)) =
      fun x => isArgument x.2 := by
    funext x
    exact decide_eq_decide.mpr (by omega)
  rw [pick_eq_filter, arguments, he]

@[simp]
theorem printable_space : printable 0x20 = 0x20 := rfl

theorem printable_bounds (c : UInt8) : 0x20 ≤ printable c ∧ printable c ≤ 0x7e := by
  rw [printable]
  split
  case isTrue h =>
    refine ⟨h.1, ?_⟩
    have := h.2
    simp only [UInt8.lt_iff_toNat_lt, UInt8.le_iff_toNat_le] at this ⊢
    simp at this ⊢
    omega
  case isFalse h => decide

theorem printable_of_mem_sanitize {text : List UInt8} {c : UInt8} (h : c ∈ sanitize text) :
    0x20 ≤ c ∧ c ≤ 0x7e := by
  obtain ⟨d, -, rfl⟩ := List.mem_map.mp h
  exact printable_bounds d

theorem sanitize_eq_nil {text : List UInt8} : sanitize text = [] ↔ text = [] := List.map_eq_nil_iff

theorem sanitize_append (text text' : List UInt8) :
    sanitize (text ++ text') = sanitize text ++ sanitize text' := List.map_append

theorem length_sanitize (text : List UInt8) : (sanitize text).length = text.length := List.length_map _

theorem crlfAt_eq {src : List UInt8} {start : Nat} {c d : UInt8} {rest : List UInt8}
    (h : src.drop start = c :: d :: rest) :
    crlfAt src start = some (decide (c = 0x0d ∧ d = 0x0a)) := by
  have h0 : src[start]? = some c := by
    rw [← Nat.add_zero start, ← List.getElem?_drop, h]
    rfl
  have h1 : src[start + 1]? = some d := by
    rw [← List.getElem?_drop, h]
    rfl
  rw [crlfAt, h0, Option.bind_some, h1]
  by_cases hc : c = 0x0d <;> by_cases hd : d = 0x0a <;> simp [hc, hd]

theorem findCrlf_eq_cut (src : List UInt8) (start n : Nat) (h : start + n ≤ src.length) :
    findCrlf src start n =
      some ((cut 0x0d 0x0a ((src.drop start).take n)).map (fun p => start + p.1.length)) := by
  induction n generalizing start with
  | zero => simp [findCrlf, cut]
  | succ n ih =>
    have hd := List.drop_eq_getElem_cons (show start < src.length by omega)
    cases n with
    | zero =>
      rw [hd, List.take_succ_cons, List.take_zero]
      rfl
    | succ n =>
      have hd' := List.drop_eq_getElem_cons (show start + 1 < src.length by omega)
      have hi := ih (start + 1) (by omega)
      rw [hd', List.take_succ_cons] at hi
      rw [hd'] at hd
      rw [findCrlf, crlfAt_eq hd, Option.bind_some, hd, List.take_succ_cons, List.take_succ_cons, cut]
      by_cases hc : src[start] = 0x0d ∧ src[start + 1] = 0x0a
      · simp [hc]
      · rw [decide_eq_false hc, if_neg hc, if_neg (by simp), hi, Option.map_map]
        congr 2
        funext p
        simp only [Function.comp_apply, List.length_cons]
        omega

theorem bufAppend_take {b : Buf} (hb : b.data.length ≤ b.cap) {src : List UInt8} {start : Nat}
    {n : Int} (h : start + n ≤ src.length) (hs : start ≤ src.length) :
    bufAppend b src start n =
      some { b with data := (b.data ++ sanitize ((src.drop start).take n.toNat)).take b.cap } := by
  have hn : (if n > (b.cap : Int) - b.data.length then (b.cap : Int) - b.data.length else n).toNat =
      min n.toNat (b.cap - b.data.length) := by
    split <;> omega
  rw [bufAppend, hn, appendLoop_eq src start _ b.data (by omega), Option.map_some]
  congr 2
  rw [List.take_append, List.take_of_length_le hb, sanitize, ← List.map_take, List.take_take,
    Nat.min_comm]

theorem appendField_take {b : Buf} (hb : b.data.length ≤ b.cap) {payload : List UInt8}
    {start pos : Nat} (h : pos ≤ payload.length) (hs : start ≤ pos) :
    appendField b payload start pos = some { b with
      data := (extend 0x20 b.data (sanitize ((payload.drop start).take (pos - start)))).take b.cap } := by
  rw [appendField]
  by_cases hz : b.data = []
  · have hl : ¬ b.data.length > 0 := by simp [hz]
    rw [if_neg hl, Option.bind_some, bufAppend_take hb (by omega) (by omega), extend, if_pos hz, hz]
    simp
  · have hl : b.data.length > 0 := List.length_pos_iff.mpr hz
    rw [if_pos hl, bufAppend_take hb (by simp) (by simp), Option.bind_some,
      bufAppend_take (by simp) (by omega) (by omega), extend, if_neg hz]
    rw [take_take_append, List.append_assoc]
    rfl

/-- The scanning loop appends the wanted segments, cut at the capacity. -/
theorem segmentLoop_eq {payload : List UInt8} {stop : Nat} (hstop : stop ≤ payload.length)
    (wanted : Nat → Bool) (fuel start fields : Nat) (b : Buf) (hb : b.data.length ≤ b.cap)
    (hs : start ≤ stop) (hfuel : stop - start < fuel) :
    segmentLoop payload stop wanted fuel start fields b = some { b with
      data := ((pick wanted fields (crlfSegments ((payload.take stop).drop start))).map sanitize).foldl
        (fun line piece => (extend 0x20 line piece).take b.cap) b.data } := by
  induction fuel generalizing start fields b with
  | zero => omega
  | succ fuel ih =>
    have hw : (payload.take stop).drop start = (payload.drop start).take (stop - start) := by
      rw [List.drop_take]
    rw [segmentLoop, findCrlf_eq_cut payload start (stop - start) (by omega), Option.bind_some, ← hw]
    cases hc : cut 0x0d 0x0a ((payload.take stop).drop start) with
    | none => simp [crlfSegments, segments_of_cut_none hc, pick]
    | some p =>
      obtain ⟨seg, rest⟩ := p
      have he := eq_of_cut hc
      have hlen := congrArg List.length he
      simp only [List.length_drop, List.length_take, List.length_append, List.length_cons] at hlen
      have hrest : (payload.take stop).drop (start + seg.length + 2) = rest := by
        rw [Nat.add_assoc, ← List.drop_drop, he, ← List.drop_drop]
        simp
      have hseg : (payload.drop start).take (start + seg.length - start) = seg := by
        have := congrArg (List.take seg.length) he
        rw [hw, List.take_take, List.take_left, Nat.min_eq_left (by omega)] at this
        rw [Nat.add_sub_cancel_left, this]
      rw [Option.map_some, crlfSegments, segments_of_cut hc, ← hrest]
      simp only [pick]
      by_cases hwant : wanted fields = true
      · rw [if_pos hwant, if_pos hwant, appendField_take hb (by omega) (by omega), Option.bind_some,
          hseg, List.map_cons, List.foldl_cons]
        generalize hd : (extend 0x20 b.data (sanitize seg)).take b.cap = data
        have hdata : data.length ≤ b.cap := by
          rw [← hd, List.length_take]
          omega
        simp only
        split
        · rw [foldl_take_extend_of_full 0x20 (show data.length = b.cap by omega)]
        · exact ih _ _ { b with data := data } hdata (by omega) (by omega)
      · rw [if_neg hwant, if_neg hwant]
        exact ih _ _ b hb (by omega) (by omega)

theorem bufInit_cap (size : Int) : (bufInit size).cap = min size.toNat 127 := by
  simp only [bufInit, maxBufSize]
  by_cases h : size > 127
  · simp only [h, if_true]
    omega
  · simp only [h, if_false]
    split <;> omega

theorem take_cap {size : Int} {text : List UInt8} (h : text.length ≤ size.toNat) :
    text.take (bufInit size).cap = text.take 127 := by
  rw [bufInit_cap, ← List.take_take, List.take_of_length_le (Nat.le_trans (by simp) h)]

theorem joinLine_length_le (wanted : Nat → Bool) (p : List UInt8) :
    (joinLine 0x20 (pick wanted 0 (crlfSegments p))).length ≤ p.length := by
  have hj := foldl_extend_length_le 0x20 (pick wanted 0 (crlfSegments p)) []
  have hp := sum_map_pick_le wanted (fun s => s.length + 1) 0 (crlfSegments p)
  have hs := segments_length_le 0x0d 0x0a p
  simp only [List.length_nil, Nat.zero_add] at hj
  exact hj.trans (hp.trans hs)

theorem crlfSegments_nil : crlfSegments [] = [] := segments_nil

theorem summaries_nil :
    memcachedSummary [] = [] ∧ redisSummary [] = [] ∧ rawSummary [] = [] := by
  have hm : memcachedSummary [] = [] := by
    rw [memcachedSummary, crlfSegments_nil]
    rfl
  exact ⟨hm, by simp [redisSummary, hm], rfl⟩

section Readable

variable {payload : List UInt8} {size : Int} (h : size ≤ payload.length)

include h

theorem bufAppend_payload :
    bufAppend ⟨[], (bufInit size).cap⟩ payload 0 size =
      some ⟨(sanitize (payload.take size.toNat)).take 127, (bufInit size).cap⟩ := by
  have hlen : (sanitize (payload.take size.toNat)).length ≤ size.toNat := by simp [sanitize]
  rw [bufAppend_take (Nat.zero_le _) (by simpa using h) (by simp), List.drop_zero]
  simp only [List.nil_append, take_cap hlen]

theorem formatRaw_summary (ok : Bool) :
    formatRaw ok payload size =
      some (if ok then some (rawSummary (payload.take size.toNat)) else none) := by
  cases ok with
  | false => rfl
  | true =>
    rw [formatRaw, if_pos rfl, show bufInit size = ⟨[], (bufInit size).cap⟩ from rfl,
      bufAppend_payload h]
    rfl

theorem formatSegments_summary (ok : Bool) (wanted : Nat → Bool) :
    formatSegments ok payload size wanted =
      some (if ok then some (summaryOf (payload.take size.toNat)
        (pick wanted 0 (crlfSegments (payload.take size.toNat)))) else none) := by
  cases ok with
  | false => rfl
  | true =>
    generalize hp : payload.take size.toNat = p
    generalize hl : joinLine 0x20 (pick wanted 0 (crlfSegments p)) = line
    have hplen : p.length = size.toNat := by
      rw [← hp, List.length_take]
      omega
    have hline : (sanitize line).length ≤ size.toNat := by
      have := joinLine_length_le wanted p
      rw [hl, hplen] at this
      simpa [sanitize] using this
    have hfold : ((pick wanted 0 (crlfSegments p)).map sanitize).foldl
        (fun line piece => (extend 0x20 line piece).take (bufInit size).cap) [] =
          (sanitize line).take 127 := by
      have := foldl_take_extend 0x20 (bufInit size).cap ((pick wanted 0 (crlfSegments p)).map sanitize) []
      rw [List.take_nil] at this
      rw [this, ← take_cap hline, ← hl]
      exact congrArg _ (map_foldl_extend 0x20 printable_space _ [])
    simp only [formatSegments, if_true]
    rw [segmentLoop_eq (by omega) wanted _ _ _ _ (Nat.zero_le _) (Nat.zero_le _) (by omega),
      Option.bind_some, List.drop_zero, hp]
    simp only [show (bufInit size).data = [] from rfl, hfold, summaryOf, hl]
    by_cases hz : sanitize line = []
    · simp only [hz, List.take_nil, List.length_nil, if_true]
      rw [bufAppend_payload h, hp]
      rfl
    · rw [if_neg (by simpa using hz), if_neg hz]
      rfl

theorem formatMemcached_summary (ok : Bool) :
    formatMemcached ok payload size =
      some (if ok then some (memcachedSummary (payload.take size.toNat)) else none) := by
  rw [formatMemcached, formatSegments_summary h, pick_true]
  rfl

theorem formatRedis_summary (ok : Bool) :
    formatRedis ok payload size =
      some (if ok then some (redisSummary (payload.take size.toNat)) else none) := by
  rw [formatRedis]
  by_cases hs : size ≤ 0
  · have hp : payload.take size.toNat = [] := by simpa using Or.inl hs
    rw [if_pos hs, formatRaw_summary h, hp, summaries_nil.2.1, summaries_nil.2.2]
  · have h0 : payload[0]? = some payload[0] := List.getElem?_eq_getElem (by omega)
    have hhead : (payload.take size.toNat).head? = some payload[0] := by
      rw [List.head?_take, if_neg (by omega), List.head?_eq_getElem?, h0]
    rw [if_neg hs, h0, Option.bind_some, redisSummary, hhead]
    by_cases hstar : payload[0] = 0x2a
    · rw [if_pos hstar, if_pos (congrArg some hstar), formatSegments_summary h, arguments_eq_pick]
      rfl
    · have hne : ¬ some payload[0] = some 0x2a := fun he => hstar (Option.some.inj he)
      rw [if_neg hstar, formatMemcached_summary h, if_neg hne]

end Readable

theorem rawSummary_printed (p : List UInt8) :
    (rawSummary p).length ≤ 127 ∧ ∀ c ∈ rawSummary p, 0x20 ≤ c ∧ c ≤ 0x7e :=
  ⟨by simp [rawSummary], fun _ hc => printable_of_mem_sanitize (List.mem_of_mem_take hc)⟩

theorem summaryOf_printed (p : List UInt8) (pieces : List (List UInt8)) :
    (summaryOf p pieces).length ≤ 127 ∧ ∀ c ∈ summaryOf p pieces, 0x20 ≤ c ∧ c ≤ 0x7e := by
  rw [summaryOf]
  split
  · exact rawSummary_printed p
  · exact ⟨by simp, fun _ hc => printable_of_mem_sanitize (List.mem_of_mem_take hc)⟩

theorem memcachedSummary_printed (p : List UInt8) :
    (memcachedSummary p).length ≤ 127 ∧ ∀ c ∈ memcachedSummary p, 0x20 ≤ c ∧ c ≤ 0x7e :=
  summaryOf_printed p _

theorem redisSummary_printed (p : List UInt8) :
    (redisSummary p).length ≤ 127 ∧ ∀ c ∈ redisSummary p, 0x20 ≤ c ∧ c ≤ 0x7e := by
  rw [redisSummary]
  split
  · exact summaryOf_printed p _
  · exact memcachedSummary_printed p

/-- Truncating in place, stopping early and the capacity `min(size, 127)` never change
the line: each formatter prints what its reference does. -/
theorem formatters_print_summaries {payload : List UInt8} {size : Int} (h : size ≤ payload.length)
    (ok : Bool) :
    formatMemcached ok payload size =
      some (if ok then some (memcachedSummary (payload.take size.toNat)) else none) ∧
    formatHttp ok payload size =
      some (if ok then some (memcachedSummary (payload.take size.toNat)) else none) ∧
    formatRedis ok payload size =
      some (if ok then some (redisSummary (payload.take size.toNat)) else none) ∧
    formatRaw ok payload size =
      some (if ok then some (rawSummary (payload.take size.toNat)) else none) ∧
    (size ≤ 0 → memcachedSummary (payload.take size.toNat) = [] ∧
      redisSummary (payload.take size.toNat) = [] ∧ rawSummary (payload.take size.toNat) = []) ∧
    ∀ text ∈ [memcachedSummary (payload.take size.toNat), redisSummary (payload.take size.toNat),
      rawSummary (payload.take size.toNat)],
      text.length ≤ 127 ∧ ∀ c ∈ text, 0x20 ≤ c ∧ c ≤ 0x7e := by
  refine ⟨formatMemcached_summary h ok, formatMemcached_summary h ok, formatRedis_summary h ok,
    formatRaw_summary h ok, ?_, ?_⟩
  · intro hs
    have hp : payload.take size.toNat = [] := by simpa using Or.inl hs
    rw [hp]
    exact summaries_nil
  · intro text ht
    simp only [List.mem_cons, List.not_mem_nil, or_false] at ht
    rcases ht with rfl | rfl | rfl
    · exact memcachedSummary_printed _
    · exact redisSummary_printed _
    · exact rawSummary_printed _

def pingArray : List UInt8 :=
  [0x2a, 0x31, 0x0d, 0x0a, 0x24, 0x34, 0x0d, 0x0a, 0x50, 0x49, 0x4e, 0x47, 0x0d, 0x0a]

theorem crlfSegments_pingArray :
    crlfSegments pingArray = [[0x2a, 0x31], [0x24, 0x34], [0x50, 0x49, 0x4e, 0x47]] := by
  rw [crlfSegments, segments_of_cut rfl, segments_of_cut rfl, segments_of_cut rfl, segments_nil]

theorem pingArray_printed :
    (14 : Int) ≤ pingArray.length ∧
      formatRedis true pingArray 14 = some (some [0x50, 0x49, 0x4e, 0x47]) := by
  refine ⟨by decide, ?_⟩
  rw [(formatters_print_summaries (by decide) true).2.2.1, redisSummary,
    show pingArray.take (14 : Int).toNat = pingArray from rfl, crlfSegments_pingArray]
  rfl

end Tcpkit
