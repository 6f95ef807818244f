import Tcpkit.DecimalText

/-! The integer conversions of `printf` and the conversion of floating-point numbers with a fixed
number of decimals. -/

namespace Binary64

theorem exponent_lt {q : ℚ} {n : ℤ} (hn : 0 < n) (h : |q| < 2 ^ n) : exponent q < n := by
  rw [exponent, max_lt_iff]
  refine ⟨?_, by omega⟩
  rcases eq_or_ne q 0 with rfl | hq
  · simpa using hn
  · exact (Int.lt_zpow_iff_log_lt (by norm_num) (abs_pos.mpr hq)).mp (by exact_mod_cast h)

theorem ulp_le_of_lt {q : ℚ} {n : ℤ} (hn : 0 < n) (h : |q| < 2 ^ n) : ulp q ≤ 2 ^ (n - 53) := by
  have he := exponent_lt hn h
  rw [ulp]
  exact zpow_le_zpow_right₀ (by norm_num) (by omega)

theorem nearest_zero : nearest 0 = 0 := nearest_of_eq_mul (k := 0) (by simp)

/-- Whole numbers of 53 bits are exact. -/
theorem nearest_intCast {z : ℤ} (h : |(z : ℚ)| < 2 ^ (53 : ℤ)) : nearest z = z := by
  have he := exponent_lt (by norm_num) h
  have hscale : (2 : ℚ) ^ (exponent z - 52) * 2 ^ (52 - exponent z).toNat = 1 := by
    rw [← zpow_natCast, ← zpow_add₀ (by norm_num), Int.toNat_of_nonneg (by omega)]
    simp
  refine nearest_of_eq_mul (k := z * 2 ^ (52 - exponent z).toNat) ?_
  rw [ulp]
  push_cast
  rw [mul_assoc, mul_comm (2 ^ (52 - exponent (z : ℚ)).toNat), hscale, mul_one]

end Binary64

namespace DecimalText

/-- `%0wd`. -/
def zeroPadded (w : Nat) (n : Int) : List UInt8 :=
  let ds := (CString.decimal n.natAbs).bytes
  if n < 0 then 0x2d :: (List.replicate (w - 1 - ds.length) 0x30 ++ ds)
  else List.replicate (w - ds.length) 0x30 ++ ds

/-- A number in units of the last of `p` decimals. -/
def fixedText (p : Nat) (negative : Bool) (m : Nat) : List UInt8 :=
  (if negative then [0x2d] else []) ++ (CString.decimal (m / 10 ^ p)).bytes ++
    0x2e :: zeroPadded p (m % 10 ^ p : Nat)

/-- `%.{p}f` of a finite number, for at least one decimal. -/
def formatF (p : Nat) (q : ℚ) : List UInt8 :=
  fixedText p (decide (q < 0)) (Binary64.roundEven (|q| * 10 ^ p)).toNat

def signedValue (s : List UInt8) : Int :=
  if s.head? = some 0x2d then -digitsValue s.tail else digitsValue s

section Integers

variable {w : Nat} {n : Int}

theorem digitsValue_zeros (k : Nat) (ds : List UInt8) :
    digitsValue (List.replicate k 0x30 ++ ds) = digitsValue ds := by
  induction k with
  | zero => rfl
  | succ k ih =>
    rw [List.replicate_succ, List.cons_append, ← ih]
    simp [digitsValue, digitValue]

theorem isDigit_zeros {k : Nat} {b : UInt8}
    (h : b ∈ List.replicate k 0x30 ++ (CString.decimal n.natAbs).bytes) : isDigit b = true := by
  rcases List.mem_append.mp h with h | h
  · rw [(List.mem_replicate.mp h).2]
    rfl
  · exact isDigit_of_mem_decimal h

theorem signedValue_zeroPadded (w : Nat) (n : Int) : signedValue (zeroPadded w n) = n := by
  rw [signedValue, zeroPadded]
  split_ifs with hneg hhead hhead
  · rw [List.tail_cons, digitsValue_zeros, digitsValue_decimal]
    omega
  · exact absurd rfl hhead
  · have hdigit := isDigit_zeros (List.mem_of_mem_head? (Option.mem_def.mpr hhead))
    exact absurd hdigit (by decide)
  · rw [digitsValue_zeros, digitsValue_decimal]
    omega

theorem zeroPadded_inj {m : Int} (h : zeroPadded w m = zeroPadded w n) : m = n := by
  rw [← signedValue_zeroPadded w m, h, signedValue_zeroPadded]

theorem zeroPadded_bytes {b : UInt8} (h : b ∈ zeroPadded w n) : b = 0x2d ∨ isDigit b = true := by
  rw [zeroPadded] at h
  split_ifs at h
  · rcases List.mem_cons.mp h with h | h
    · exact Or.inl h
    · exact Or.inr (isDigit_zeros h)
  · exact Or.inr (isDigit_zeros h)

theorem length_zeroPadded {k : Nat} (hk : 0 < k) (h : n.natAbs < 10 ^ k) :
    (zeroPadded w n).length ≤ max w (k + 1) := by
  have hle : (CString.decimal n.natAbs).bytes.length ≤ k := CString.strlen_decimal_le hk h
  rw [zeroPadded]
  split_ifs <;> simp <;> omega

end Integers

section Fixed

variable {p m : Nat} {negative : Bool}

theorem digitsValue_zeroPadded (w m : Nat) : digitsValue (zeroPadded w m) = m := by
  rw [zeroPadded, if_neg (by omega), digitsValue_zeros, digitsValue_decimal]
  rfl

theorem fixedText_bytes {b : UInt8} (h : b ∈ fixedText p negative m) :
    b = 0x2d ∨ b = 0x2e ∨ isDigit b = true := by
  rw [fixedText, List.append_assoc, List.mem_append, List.mem_append, List.mem_cons] at h
  rcases h with h | h | rfl | h
  · split_ifs at h
    · exact Or.inl (List.mem_singleton.mp h)
    · cases h
  · exact Or.inr (Or.inr (isDigit_of_mem_decimal h))
  · exact Or.inr (Or.inl rfl)
  · rcases zeroPadded_bytes h with h | h
    · exact Or.inl h
    · exact Or.inr (Or.inr h)

theorem decimal_append_ne (n : Nat) (rest s : List UInt8) :
    [] ++ (CString.decimal n).bytes ++ rest ≠ 0x2d :: s := by
  intro h
  obtain ⟨d, ds, hds⟩ := List.exists_cons_of_ne_nil (decimal_ne_nil n)
  have hd : isDigit d = true := isDigit_of_mem_decimal (n := n) (hds ▸ List.mem_cons_self)
  rw [hds] at h
  rw [(List.cons.inj h).1] at hd
  cases hd

theorem fixedText_inj {negative' : Bool} {m' : Nat}
    (h : fixedText p negative m = fixedText p negative' m') : negative = negative' ∧ m = m' := by
  have hsign : negative = negative' := by
    cases negative <;> cases negative'
    · rfl
    · exact absurd h (decimal_append_ne _ _ _)
    · exact absurd h.symm (decimal_append_ne _ _ _)
    · rfl
  subst hsign
  refine ⟨rfl, ?_⟩
  rw [fixedText, fixedText, List.append_assoc, List.append_assoc, List.append_cancel_left_eq] at h
  have hdot (k : Nat) : (0x2e : UInt8) ∉ (CString.decimal k).bytes := fun hm =>
    absurd (isDigit_of_mem_decimal hm) (by decide)
  obtain ⟨hwhole, hrest⟩ := (append_inj_of_notMem (hdot _) (hdot _) (by simp) (by simp)).mp h
  have hquot := CString.decimal_injective (CString.ext hwhole)
  have hmod := congrArg digitsValue (List.cons.inj hrest).2
  rw [digitsValue_zeroPadded, digitsValue_zeroPadded] at hmod
  rw [← Nat.div_add_mod m (10 ^ p), ← Nat.div_add_mod m' (10 ^ p), hquot, hmod]

theorem length_fixedText {k : Nat} (hk : 0 < k) (hp : 0 < p) (h : m < 10 ^ (k + p)) :
    (fixedText p negative m).length ≤ k + p + 3 := by
  have hwhole : (CString.decimal (m / 10 ^ p)).bytes.length ≤ k := by
    refine CString.strlen_decimal_le hk ?_
    rw [Nat.div_lt_iff_lt_mul (Nat.pow_pos (by decide)), ← pow_add]
    exact h
  have hrest : (zeroPadded p (m % 10 ^ p : Nat)).length ≤ max p (p + 1) :=
    length_zeroPadded hp (Nat.mod_lt m (Nat.pow_pos (by decide)))
  rw [fixedText]
  generalize zeroPadded p (m % 10 ^ p : Nat) = rest at hrest ⊢
  split_ifs <;> simp <;> omega

end Fixed

section Thousandths

variable {k : ℤ}

theorem abs_nearest_thousandth_le (h : |(k : ℚ)| < 2 ^ 43 * 1000) :
    |Binary64.nearest (k / 1000) - k / 1000| ≤ 1 / 2048 := by
  have hlt : |(k : ℚ) / 1000| < 2 ^ (43 : ℤ) := by
    rw [abs_div, div_lt_iff₀ (by norm_num)]
    norm_num at h ⊢
    exact h
  refine (Binary64.abs_nearest_sub_le _).trans ?_
  have hulp := Binary64.ulp_le_of_lt (by norm_num) hlt
  norm_num at hulp
  linarith

/-- Below `2 ^ 43` the quotient by a thousand is close enough to the double next to it to be
printed with three decimals as it is. -/
theorem formatF_thousandth (h : |(k : ℚ)| < 2 ^ 43 * 1000) :
    formatF 3 (Binary64.nearest (k / 1000)) = fixedText 3 (decide (k < 0)) k.natAbs := by
  have hclose := abs_le.mp (abs_nearest_thousandth_le h)
  have hsign : Binary64.nearest (k / 1000) < 0 ↔ k < 0 := by
    constructor
    · intro hneg
      by_contra hk
      rcases eq_or_lt_of_le (not_lt.mp hk) with rfl | hpos
      · rw [Int.cast_zero, zero_div, Binary64.nearest_zero] at hneg
        exact lt_irrefl _ hneg
      · have hone : (1 : ℚ) ≤ k := by exact_mod_cast hpos
        linarith
    · intro hneg
      have hone : (k : ℚ) ≤ -1 := by exact_mod_cast (by omega : k ≤ -1)
      linarith
  have hround : Binary64.roundEven (|Binary64.nearest (k / 1000)| * 10 ^ 3) = |k| := by
    refine Binary64.roundEven_eq_of_abs_sub_lt ?_
    have hscaled : |Binary64.nearest (k / 1000)| * 10 ^ 3 - ((|k| : ℤ) : ℚ) =
        (|Binary64.nearest (k / 1000)| - |(k : ℚ) / 1000|) * 1000 := by
      rw [abs_div, abs_of_pos (by norm_num : (0 : ℚ) < 1000)]
      push_cast
      ring
    have hdist := (abs_abs_sub_abs_le (Binary64.nearest (k / 1000)) ((k : ℚ) / 1000)).trans
      (abs_nearest_thousandth_le h)
    rw [hscaled, abs_mul, abs_of_pos (by norm_num : (0 : ℚ) < 1000)]
    linarith
  rw [formatF, hround, decide_eq_decide.mpr hsign, Int.abs_eq_natAbs, Int.toNat_natCast]

end Thousandths

end DecimalText
