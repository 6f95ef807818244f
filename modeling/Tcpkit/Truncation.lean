import Tcpkit.Summary

/-! Two captures of one payload, one of them shorter: what a formatter prints of the
shorter one begins what it prints of the longer one, or the bytes of the longer one. -/

namespace Tcpkit

open Segments

/-- The complete lines `format_redis` reports. -/
def redisLines (p : List UInt8) : List (List UInt8) :=
  if p.head? = some 0x2a then arguments (crlfSegments p) else crlfSegments p

theorem redisSummary_eq (p : List UInt8) : redisSummary p = summaryOf p (redisLines p) := by
  rw [redisSummary, redisLines]
  split <;> rfl

theorem summaryOf_prefix (p q : List UInt8) {lines lines' : List (List UInt8)} (hlines : lines <+: lines')
    (hsome : ∃ line ∈ lines, line ≠ []) : summaryOf q lines <+: summaryOf p lines' := by
  have hne : joinLine 0x20 lines ≠ [] := by
    rw [ne_eq, joinLine_eq_nil_iff]
    obtain ⟨line, hmem, hline⟩ := hsome
    exact fun hall => hline (hall line hmem)
  have hjoin := joinLine_prefix 0x20 hlines hne
  have hne' : joinLine 0x20 lines' ≠ [] := fun hnil => hne (List.prefix_nil.mp (hnil ▸ hjoin))
  rw [summaryOf, if_neg (mt sanitize_eq_nil.mp hne), summaryOf, if_neg (mt sanitize_eq_nil.mp hne')]
  exact (hjoin.map printable).take 127

section

variable {p q : List UInt8} (h : q <+: p)

include h

theorem crlfSegments_prefix : crlfSegments q <+: crlfSegments p := segments_prefix 0x0d 0x0a h

theorem redisLines_prefix : redisLines q <+: redisLines p := by
  cases q with
  | nil =>
    rw [redisLines, crlfSegments_nil]
    exact List.nil_prefix
  | cons c q =>
    have hhead : p.head? = some c := by
      obtain ⟨rest, rfl⟩ := h
      rfl
    have hlines := crlfSegments_prefix h
    rw [redisLines, redisLines, hhead, List.head?_cons]
    split
    · rw [arguments_eq_pick, arguments_eq_pick]
      exact pick_prefix isArgument 0 hlines
    · exact hlines

theorem rawSummary_prefix : rawSummary q <+: rawSummary p := (h.map printable).take 127

theorem summaryOf_prefix_raw {lines : List (List UInt8)} (hnone : ∀ line ∈ lines, line = []) :
    summaryOf q lines <+: rawSummary p := by
  rw [summaryOf, if_pos (sanitize_eq_nil.mpr ((joinLine_eq_nil_iff 0x20 lines).mpr hnone))]
  exact rawSummary_prefix h

end

/-- What a formatter prints of every payload and of every prefix of it, given the complete lines
that it reports. -/
def OnlyShortens (lines : List UInt8 → List (List UInt8))
    (format : List UInt8 → Int → Access (Option (List UInt8))) : Prop :=
  ∀ p q, q <+: p → ∃ whole part raw, format p p.length = some (some whole) ∧
    format q q.length = some (some part) ∧ formatRaw true p p.length = some (some raw) ∧
    ((∃ line ∈ lines q, line ≠ []) → part <+: whole) ∧
    ((∀ line ∈ lines q, line = []) → part <+: raw)

theorem onlyShortens_of_summary {lines : List UInt8 → List (List UInt8)}
    {format : List UInt8 → Int → Access (Option (List UInt8))}
    (hformat : ∀ p, format p p.length = some (some (summaryOf p (lines p))))
    (hlines : ∀ p q, q <+: p → lines q <+: lines p) : OnlyShortens lines format := by
  intro p q h
  have hraw : formatRaw true p p.length = some (some (rawSummary p)) := by
    rw [formatRaw_summary (Int.le_refl _), Int.toNat_natCast, List.take_length]
    rfl
  exact ⟨_, _, _, hformat p, hformat q, hraw, summaryOf_prefix p q (hlines p q h), summaryOf_prefix_raw h⟩

/-- Capturing less only shortens the summary. -/
theorem truncation_shortens_summaries :
    OnlyShortens redisLines (formatRedis true) ∧ OnlyShortens crlfSegments (formatMemcached true) ∧
      OnlyShortens crlfSegments (formatHttp true) := by
  have hmemcached (p : List UInt8) :
      formatMemcached true p p.length = some (some (summaryOf p (crlfSegments p))) := by
    rw [formatMemcached_summary (Int.le_refl _), Int.toNat_natCast, List.take_length]
    rfl
  have hredis (p : List UInt8) :
      formatRedis true p p.length = some (some (summaryOf p (redisLines p))) := by
    rw [formatRedis_summary (Int.le_refl _), Int.toNat_natCast, List.take_length, redisSummary_eq]
    rfl
  exact ⟨onlyShortens_of_summary hredis fun p q h => redisLines_prefix h,
    onlyShortens_of_summary hmemcached fun p q h => crlfSegments_prefix h,
    onlyShortens_of_summary hmemcached fun p q h => crlfSegments_prefix h⟩

end Tcpkit
