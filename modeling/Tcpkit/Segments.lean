import Mathlib.Algebra.Ring.Nat
import Mathlib.Data.List.Basic
import Mathlib.Data.List.Infix

/-! Lists cut at every leftmost occurrence of a two-letter separator, and pieces
joined into one line whose separator is left out while the line is empty. -/

namespace Segments

variable {α : Type*}

section Cutting

variable [DecidableEq α]

/-- What stands before the leftmost `a b`, and what stands after it. -/
def cut (a b : α) : List α → Option (List α × List α)
  | [] => none
  | [_] => none
  | x :: y :: rest =>
    if x = a ∧ y = b then some ([], rest)
    else (cut a b (y :: rest)).map (fun p => (x :: p.1, p.2))

variable {a b : α}

theorem eq_of_cut {l s rest : List α} (h : cut a b l = some (s, rest)) :
    l = s ++ a :: b :: rest := by
  induction l generalizing s with
  | nil => simp [cut] at h
  | cons x l ih =>
    cases l with
    | nil => simp [cut] at h
    | cons y l =>
      rw [cut] at h
      by_cases hx : x = a ∧ y = b
      · rw [if_pos hx] at h
        simp only [Option.some.injEq, Prod.mk.injEq] at h
        rw [← h.1, ← h.2, hx.1, hx.2, List.nil_append]
      · rw [if_neg hx, Option.map_eq_some_iff] at h
        obtain ⟨⟨s', rest'⟩, hc, he⟩ := h
        simp only [Prod.mk.injEq] at he
        rw [he.2] at hc
        rw [ih hc, ← he.1, List.cons_append]

theorem cut_append (hab : a ≠ b) {s : List α} (hs : ¬ [a, b] <:+: s) (rest : List α) :
    cut a b (s ++ a :: b :: rest) = some (s, rest) := by
  induction s with
  | nil => simp [cut]
  | cons x s ih =>
    have hi := ih (fun h => hs (h.trans (List.suffix_cons x s).isInfix))
    cases s with
    | nil => simp [cut, hab]
    | cons y s =>
      -- a separator at the front would be an infix of the piece itself
      have hx : ¬ (x = a ∧ y = b) := by
        intro h
        apply hs
        rw [h.1, h.2]
        exact (List.prefix_append [a, b] s).isInfix
      simp only [List.cons_append] at hi ⊢
      rw [cut, if_neg hx, hi, Option.map_some]

theorem cut_append_of_cut {l s rest : List α} (h : cut a b l = some (s, rest)) (tail : List α) :
    cut a b (l ++ tail) = some (s, rest ++ tail) := by
  induction l generalizing s with
  | nil => simp [cut] at h
  | cons x l ih =>
    cases l with
    | nil => simp [cut] at h
    | cons y l =>
      rw [cut] at h
      rw [List.cons_append, List.cons_append, cut]
      by_cases hx : x = a ∧ y = b
      · rw [if_pos hx] at h ⊢
        simp only [Option.some.injEq, Prod.mk.injEq] at h
        rw [← h.1, h.2]
      · rw [if_neg hx, Option.map_eq_some_iff] at h
        obtain ⟨⟨s', rest'⟩, hc, he⟩ := h
        simp only [Prod.mk.injEq] at he
        rw [he.2] at hc
        rw [if_neg hx, ← List.cons_append, ih hc, Option.map_some, ← he.1]

theorem not_infix_of_cut_none {l : List α} (h : cut a b l = none) : ¬ [a, b] <:+: l := by
  induction l with
  | nil => simp
  | cons x l ih =>
    rw [List.infix_cons_iff]
    cases l with
    | nil => simp
    | cons y l =>
      rw [cut] at h
      by_cases hx : x = a ∧ y = b
      · simp [hx] at h
      · rw [if_neg hx, Option.map_eq_none_iff] at h
        intro hi
        rcases hi with hp | hi
        · rw [List.cons_prefix_cons, List.cons_prefix_cons] at hp
          exact hx ⟨hp.1.symm, hp.2.1.symm⟩
        · exact ih h hi

/-- The pieces that end in a separator; what follows the last separator is dropped. -/
def segments (a b : α) (l : List α) : List (List α) :=
  match _h : cut a b l with
  | none => []
  | some (s, rest) => s :: segments a b rest
termination_by l.length
decreasing_by
  rw [eq_of_cut _h]
  simp
  omega

theorem segments_of_cut_none {l : List α} (h : cut a b l = none) : segments a b l = [] := by
  rw [segments]
  split
  · rfl
  · simp_all

theorem segments_of_cut {l s rest : List α} (h : cut a b l = some (s, rest)) :
    segments a b l = s :: segments a b rest := by
  rw [segments]
  split
  · simp_all
  · simp_all

theorem segments_append (hab : a ≠ b) {s : List α} (hs : ¬ [a, b] <:+: s) (rest : List α) :
    segments a b (s ++ a :: b :: rest) = s :: segments a b rest :=
  segments_of_cut (cut_append hab hs rest)

theorem segments_nil : segments a b [] = [] := segments_of_cut_none rfl

/-- What is appended does not change the pieces that are complete. -/
theorem segments_prefix (a b : α) {l l' : List α} (h : l <+: l') : segments a b l <+: segments a b l' := by
  induction l using segments.induct a b generalizing l' with
  | case1 l hnone =>
    rw [segments_of_cut_none hnone]
    exact List.nil_prefix
  | case2 l s rest hcut ih =>
    obtain ⟨tail, rfl⟩ := h
    rw [segments_of_cut hcut, segments_of_cut (cut_append_of_cut hcut tail)]
    exact List.cons_prefix_cons.mpr ⟨rfl, ih (List.prefix_append rest tail)⟩

theorem segments_length_le (a b : α) (l : List α) :
    ((segments a b l).map (fun s => s.length + 1)).sum ≤ l.length := by
  induction l using segments.induct a b with
  | case1 l h => simp [segments_of_cut_none h]
  | case2 l s rest h ih =>
    have hl := congrArg List.length (eq_of_cut h)
    simp only [List.length_append, List.length_cons] at hl
    rw [segments_of_cut h, List.map_cons, List.sum_cons]
    omega

end Cutting

/-- The elements whose index, counted from `i`, is wanted. -/
def pick (wanted : Nat → Bool) : Nat → List α → List α
  | _, [] => []
  | i, x :: l => if wanted i then x :: pick wanted (i + 1) l else pick wanted (i + 1) l

theorem pick_true (i : Nat) (l : List α) : pick (fun _ => true) i l = l := by
  induction l generalizing i with
  | nil => rfl
  | cons x l ih => rw [pick, if_pos rfl, ih]

theorem pick_eq_filter (wanted : Nat → Bool) (i : Nat) (l : List α) :
    pick wanted i l = ((l.zipIdx i).filter (fun x => wanted x.2)).map Prod.fst := by
  induction l generalizing i with
  | nil => rfl
  | cons x l ih =>
    rw [pick, List.zipIdx_cons]
    cases hw : wanted i <;> simp [hw, ih]

theorem pick_prefix (wanted : Nat → Bool) (i : Nat) {l l' : List α} (h : l <+: l') :
    pick wanted i l <+: pick wanted i l' := by
  induction l generalizing i l' with
  | nil => exact List.nil_prefix
  | cons x l ih =>
    obtain ⟨tail, rfl⟩ := h
    rw [List.cons_append, pick, pick]
    split
    · exact List.cons_prefix_cons.mpr ⟨rfl, ih (i + 1) (List.prefix_append l tail)⟩
    · exact ih (i + 1) (List.prefix_append l tail)

theorem sum_map_pick_le (wanted : Nat → Bool) (f : α → Nat) (i : Nat) (l : List α) :
    ((pick wanted i l).map f).sum ≤ (l.map f).sum := by
  induction l generalizing i with
  | nil => exact Nat.le_refl _
  | cons x l ih =>
    have := ih (i + 1)
    rw [pick]
    split <;> simp only [List.map_cons, List.sum_cons] <;> omega

theorem take_take_append (n : Nat) (l l' : List α) : (l.take n ++ l').take n = (l ++ l').take n := by
  rw [List.take_append, List.take_append, List.take_take, Nat.min_self, List.length_take]
  congr 1
  rcases Nat.le_total n l.length with h | h
  · rw [Nat.min_eq_left h, Nat.sub_self, Nat.sub_eq_zero_of_le h]
  · rw [Nat.min_eq_right h]

section Joining

variable (sep : α)

def extend [DecidableEq α] (line piece : List α) : List α :=
  if line = [] then piece else line ++ sep :: piece

def joinLine [DecidableEq α] (pieces : List (List α)) : List α := pieces.foldl (extend sep) []

variable [DecidableEq α]

theorem take_extend (n : Nat) (line piece : List α) :
    (extend sep (line.take n) piece).take n = (extend sep line piece).take n := by
  rcases Nat.eq_zero_or_pos n with rfl | hn
  · simp
  · by_cases hl : line = []
    · simp [hl]
    · have ht : line.take n ≠ [] := by simpa [List.take_eq_nil_iff] using ⟨by omega, hl⟩
      rw [extend, extend, if_neg ht, if_neg hl, take_take_append]

/-- Cutting the line after every piece is the same as cutting it once at the end. -/
theorem foldl_take_extend (n : Nat) (pieces : List (List α)) (line : List α) :
    pieces.foldl (fun line piece => (extend sep line piece).take n) (line.take n) =
      (pieces.foldl (extend sep) line).take n := by
  induction pieces generalizing line with
  | nil => rfl
  | cons piece pieces ih => rw [List.foldl_cons, take_extend, ih, List.foldl_cons]

/-- A full line stays as it is. -/
theorem foldl_take_extend_of_full {n : Nat} {line : List α} (hn : line.length = n)
    (pieces : List (List α)) :
    pieces.foldl (fun line piece => (extend sep line piece).take n) line = line := by
  induction pieces with
  | nil => rfl
  | cons piece pieces ih =>
    have hfull : (extend sep line piece).take n = line := by
      rw [extend]
      split
      · simp_all
      · rw [← hn, List.take_left]
    rw [List.foldl_cons, hfull, ih]

theorem foldl_extend_of_ne_nil {line : List α} (h : line ≠ []) (pieces : List (List α)) :
    pieces.foldl (extend sep) line = line ++ pieces.flatMap (fun piece => sep :: piece) := by
  induction pieces generalizing line with
  | nil => simp
  | cons piece pieces ih =>
    rw [List.foldl_cons, extend, if_neg h, ih (by simp), List.flatMap_cons, List.append_assoc]

theorem joinLine_eq_nil_iff (pieces : List (List α)) :
    joinLine sep pieces = [] ↔ ∀ piece ∈ pieces, piece = [] := by
  induction pieces with
  | nil => simp [joinLine]
  | cons piece pieces ih =>
    rw [List.forall_mem_cons, ← ih, joinLine, List.foldl_cons, extend, if_pos rfl]
    by_cases hp : piece = []
    · rw [hp, joinLine]
      simp
    · rw [foldl_extend_of_ne_nil sep hp]
      simp [hp]

theorem joinLine_prefix {pieces pieces' : List (List α)} (h : pieces <+: pieces')
    (hne : joinLine sep pieces ≠ []) : joinLine sep pieces <+: joinLine sep pieces' := by
  obtain ⟨more, rfl⟩ := h
  have hmore : joinLine sep (pieces ++ more) =
      joinLine sep pieces ++ more.flatMap (fun piece => sep :: piece) := by
    rw [joinLine, List.foldl_append]
    exact foldl_extend_of_ne_nil sep hne more
  rw [hmore]
  exact List.prefix_append _ _

theorem foldl_extend_length_le (pieces : List (List α)) (line : List α) :
    (pieces.foldl (extend sep) line).length ≤
      line.length + (pieces.map (fun piece => piece.length + 1)).sum := by
  induction pieces generalizing line with
  | nil => simp
  | cons piece pieces ih =>
    have hstep : (extend sep line piece).length ≤ line.length + (piece.length + 1) := by
      rw [extend]
      split
      · omega
      · simp
    have := ih (extend sep line piece)
    simp only [List.foldl_cons, List.map_cons, List.sum_cons]
    omega

theorem map_foldl_extend {f : α → α} (hf : f sep = sep) (pieces : List (List α)) (line : List α) :
    (pieces.map (List.map f)).foldl (extend sep) (line.map f) =
      (pieces.foldl (extend sep) line).map f := by
  induction pieces generalizing line with
  | nil => rfl
  | cons piece pieces ih =>
    have hstep : extend sep (line.map f) (piece.map f) = (extend sep line piece).map f := by
      by_cases hl : line = [] <;> simp [extend, hl, hf]
    rw [List.map_cons, List.foldl_cons, hstep, ih, List.foldl_cons]

omit [DecidableEq α] in
theorem intercalate_append_cons (l after : List (List α)) (x z : List α) :
    [sep].intercalate (l ++ (x ++ z) :: after) =
      [sep].intercalate (l ++ [x]) ++ (z ++ after.flatMap (fun piece => sep :: piece)) := by
  induction l with
  | nil =>
    induction after generalizing x z with
    | nil => simp [List.intercalate]
    | cons y after ih =>
      have hi := ih [] y
      simp only [List.intercalate, List.nil_append, List.intersperse_cons_cons, List.flatten_cons,
        List.flatMap_cons] at hi ⊢
      rw [hi]
      simp
  | cons y l ih =>
    obtain ⟨w, ws, hw⟩ := List.exists_cons_of_ne_nil (show l ++ (x ++ z) :: after ≠ [] by simp)
    obtain ⟨v, vs, hv⟩ := List.exists_cons_of_ne_nil (show l ++ [x] ≠ [] by simp)
    rw [hw, hv] at ih
    simp only [List.intercalate, List.cons_append, hw, hv, List.intersperse_cons_cons,
      List.flatten_cons, List.append_assoc] at ih ⊢
    rw [ih]

omit [DecidableEq α] in
theorem length_intercalate_concat (l : List (List α)) (x : List α) :
    ([sep].intercalate (l ++ [x])).length =
      (l.map (fun piece => piece.length + 1)).sum + x.length := by
  induction l with
  | nil => simp [List.intercalate]
  | cons y l ih =>
    obtain ⟨v, vs, hv⟩ := List.exists_cons_of_ne_nil (show l ++ [x] ≠ [] by simp)
    rw [hv] at ih
    simp only [List.intercalate, List.cons_append, hv, List.intersperse_cons_cons, List.flatten_cons,
      List.length_append, List.length_cons, List.length_nil, List.map_cons, List.sum_cons] at ih ⊢
    omega

theorem joinLine_eq_intercalate {first : List α} (h : first ≠ []) (pieces : List (List α)) :
    joinLine sep (first :: pieces) = [sep].intercalate (first :: pieces) := by
  have he := intercalate_append_cons sep [] pieces first []
  rw [List.append_nil, List.nil_append, List.nil_append, List.nil_append, List.intercalate_singleton] at he
  rw [joinLine, List.foldl_cons, extend, if_pos rfl, foldl_extend_of_ne_nil sep h, he]

end Joining

theorem take_append_inj {l u v : List α} (n : Nat) :
    (l ++ u).take n = (l ++ v).take n ↔ u.take (n - l.length) = v.take (n - l.length) := by
  rw [List.take_append, List.take_append, List.append_cancel_left_eq]

theorem take_eq_iff_of_head_ne {u v : List α} (h : u.head? ≠ v.head?) (n : Nat) :
    u.take n = v.take n ↔ n = 0 := by
  constructor
  · intro he
    by_contra hn
    have hh := congrArg List.head? he
    rw [List.head?_take, List.head?_take, if_neg hn, if_neg hn] at hh
    exact h hh
  · intro hn
    rw [hn, List.take_zero, List.take_zero]

end Segments
