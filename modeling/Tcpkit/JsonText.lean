import Tcpkit.DecimalText
import Tcpkit.Report

/-! The items of the JSON library and the text that stands for each of them: numbers with as
many digits as it takes to read them back, strings with their escapes, and the layout of
formatted arrays and objects. -/

namespace Tcpkit

open DecimalText

/-- The item types of the library with their numbers in `ν`; raw and invalid items are left out. -/
inductive JsonItem (ν : Type) where
  | null
  | bool (value : Bool)
  | number (value : ν)
  | string (value : CString)
  | array (items : List (JsonItem ν))
  | object (members : List (CString × JsonItem ν))

section Numbers

theorem toDouble_of_le {n : Nat} (h : 2 ^ 53 ≤ n) :
    toDouble n = roundDiv n (2 ^ (Nat.log2 n - 52)) * 2 ^ (Nat.log2 n - 52) := by
  rw [toDouble, if_neg (by omega)]
  rfl

theorem exponent_natCast (n : Nat) : Binary64.exponent n = Nat.log2 n := by
  have habs : |(n : ℚ)| = n := abs_of_nonneg (by positivity)
  rw [Binary64.exponent, habs, Int.log_natCast, ← Nat.log2_eq_log_two, max_eq_left (by omega)]

theorem nearest_natCast (n : Nat) : Binary64.nearest n = toDouble n := by
  rcases lt_or_ge n (2 ^ 53) with h | h
  · have hlog : Nat.log2 n ≤ 52 := by
      rcases Nat.eq_zero_or_pos n with rfl | hpos
      · decide
      · have := (Nat.log2_lt hpos.ne').mpr h
        omega
    rw [toDouble_of_lt h]
    apply Binary64.nearest_of_eq_mul (k := ((n * 2 ^ (52 - Nat.log2 n) : Nat) : ℤ))
    rw [Binary64.ulp, exponent_natCast, show ((Nat.log2 n : Nat) : ℤ) - 52 =
      -((52 - Nat.log2 n : Nat) : ℤ) by omega,
      zpow_neg, zpow_natCast]
    push_cast
    field_simp
  · have hlog : 52 ≤ Nat.log2 n := by
      have := (Nat.le_log2 (by omega)).mpr h
      omega
    have hulp : Binary64.ulp n = ((2 ^ (Nat.log2 n - 52) : Nat) : ℚ) := by
      rw [Binary64.ulp, exponent_natCast,
        show ((Nat.log2 n : Nat) : ℤ) - 52 = ((Nat.log2 n - 52 : Nat) : ℤ) by omega, zpow_natCast]
      push_cast
      rfl
    rw [Binary64.nearest, hulp, roundEven_div _ _ (Nat.pow_pos (by decide)), toDouble_of_le h]
    push_cast
    rfl

theorem round_natCast {n d : Nat} (hn : toDouble n = d) (hd : d < 2 ^ 1024) :
    Binary64.round n = .finite d := by
  have hlt : |Binary64.nearest n| < 2 ^ 1024 := by
    have hcast := (Nat.cast_lt (α := ℚ)).mpr hd
    rw [Nat.cast_pow, Nat.cast_ofNat] at hcast
    rwa [nearest_natCast, hn, abs_of_nonneg (Nat.cast_nonneg _)]
  rw [Binary64.round, if_pos hlt, nearest_natCast, hn]

theorem toDouble_of_round {n : Nat} {q : ℚ} (h : Binary64.round n = .finite q) : q = toDouble n := by
  unfold Binary64.round at h
  split_ifs at h
  rw [nearest_natCast] at h
  exact (Binary64.Double.finite.inj h).symm

theorem pow_le_limit {k : Nat} (h : 50 ≤ k) : 10 ^ 15 ≤ 2 ^ k :=
  le_trans (b := 2 ^ 50) (by norm_num) (Nat.pow_le_pow_right (by decide) h)

/-- A whole double beyond the exact range: its leading 53 bits and the power of two behind them. -/
theorem toDouble_fixed {v : Nat} (hv : toDouble v = v) (h : 2 ^ 53 ≤ v) :
    ∃ a s, v = a * 2 ^ s ∧ 2 ^ 52 ≤ a ∧ a < 2 ^ 53 := by
  have hlog : 53 ≤ Nat.log2 v := (Nat.le_log2 (by omega)).mpr h
  rw [toDouble_of_le h] at hv
  have hlo : 2 ^ 52 * 2 ^ (Nat.log2 v - 52) ≤ v := by
    rw [← pow_add, show 52 + (Nat.log2 v - 52) = Nat.log2 v by omega]
    exact Nat.log2_self_le (by omega)
  have hhi : v < 2 ^ 53 * 2 ^ (Nat.log2 v - 52) := by
    rw [← pow_add, show 53 + (Nat.log2 v - 52) = Nat.log2 v + 1 by omega]
    exact Nat.lt_log2_self
  refine ⟨_, _, hv.symm, le_roundDiv (Nat.pow_pos (by decide)) hlo, ?_⟩
  refine Nat.lt_of_mul_lt_mul_right (a := 2 ^ (Nat.log2 v - 52)) ?_
  rw [hv]
  exact hhi

theorem toDouble_of_near {a s d : Nat} (hlo : 2 ^ 52 ≤ a) (hhi : a < 2 ^ 53) (hs : 2 ^ 53 ≤ d)
    (habove : 2 * d < 2 * (a * 2 ^ s) + 2 ^ s) (hbelow : 2 * (a * 2 ^ s) < 2 * d + 2 ^ s)
    (hedge : a = 2 ^ 52 → 4 * (a * 2 ^ s) < 4 * d + 2 ^ s) : toDouble d = a * 2 ^ s := by
  have hpos : 0 < 2 ^ s := Nat.pow_pos (by decide)
  have htop : d < 2 ^ (53 + s) := by
    have : (a + 1) * 2 ^ s ≤ 2 ^ 53 * 2 ^ s := Nat.mul_le_mul_right _ hhi
    rw [pow_add]
    rw [Nat.add_mul, Nat.one_mul] at this
    omega
  rw [toDouble_of_le hs]
  rcases lt_or_ge d (2 ^ (52 + s)) with h | h
  · -- the number lies below the power of two, where the doubles are twice as dense
    have ha : a = 2 ^ 52 := by
      have hlt : a * 2 ^ s < (2 ^ 52 + 1) * 2 ^ s := by
        rw [Nat.add_mul, Nat.one_mul, ← pow_add]
        omega
      have := Nat.lt_of_mul_lt_mul_right hlt
      omega
    have hs1 : 1 ≤ s := by
      by_contra h0
      rw [show s = 0 by omega] at h
      omega
    have hlog : Nat.log2 d = 51 + s := by
      rw [Nat.log2_eq_iff (by omega)]
      have hhalf : 2 ^ (52 + s) = 2 * 2 ^ (51 + s) := by rw [← pow_succ']; congr 1; omega
      have hedge' := hedge ha
      have hsplit : a * 2 ^ s = 2 * 2 ^ (51 + s) := by
        rw [ha, ← pow_add, hhalf]
      have hsmall : 2 ^ s ≤ 2 ^ (51 + s) := Nat.pow_le_pow_right (by decide) (by omega)
      rw [show 51 + s + 1 = 52 + s by omega]
      omega
    have htwo : 2 ^ s = 2 * 2 ^ (s - 1) := by rw [← pow_succ']; congr 1; omega
    have hround : roundDiv d (2 ^ (s - 1)) = 2 * a := by
      have hmul : 2 * a * 2 ^ (s - 1) = a * 2 ^ s := by rw [htwo]; ring
      refine roundDiv_eq (Nat.pow_pos (by decide)) ?_ ?_
      · rw [hmul, ha, ← pow_add]
        omega
      · rw [hmul]
        have := hedge ha
        omega
    rw [hlog, show 51 + s - 52 = s - 1 by omega, hround, htwo]
    ring
  · have hlog : Nat.log2 d = 52 + s := by
      rw [Nat.log2_eq_iff (by omega), show 52 + s + 1 = 53 + s by omega]
      exact ⟨h, htop⟩
    rw [hlog, show 52 + s - 52 = s by omega, roundDiv_eq hpos habove hbelow]

/-- Seventeen significant digits are enough to tell a double from its neighbours. -/
theorem toDouble_seventeen {v : Nat} (hv : toDouble v = v) (h : 10 ^ 17 ≤ v) :
    toDouble (significantValue 17 v) = v := by
  obtain ⟨a, s, hva, hlo, hhi⟩ := toDouble_fixed hv (by omega)
  obtain ⟨hle, hge⟩ := significantValue_bounds (by decide) h
  obtain ⟨hunit, -⟩ := log_bounds (by decide) h
  generalize ht : 10 ^ (Nat.log 10 v + 1 - 17) = t at hle hge hunit
  generalize hd : significantValue 17 v = d at hle hge
  have hpos : 0 < 2 ^ s := Nat.pow_pos (by decide)
  have hcoarse : v < 2 ^ 53 * 2 ^ s := by
    rw [hva]
    exact Nat.mul_lt_mul_of_pos_right hhi hpos
  have hstep : t < 2 ^ s := by omega
  rw [hva] at hle hge hunit ⊢
  refine toDouble_of_near hlo hhi ?_ ?_ ?_ ?_
  · omega
  · omega
  · omega
  · intro ha
    rw [ha] at hle hge hunit ⊢
    omega

end Numbers

section NumberText

/-- `fabs(a - b) <= CJSON_DOUBLE_PRECISION`. -/
def compareDouble (a b : ℚ) : Bool :=
  decide (|Binary64.nearest (a - b)| ≤ Binary64.nearest (1 / 10 ^ 16))

theorem compareDouble_self (a : ℚ) : compareDouble a a = true := by
  rw [compareDouble, sub_self, decide_eq_true_eq]
  decide +kernel

/-- Different whole numbers are at least one apart, far more than the tolerance. -/
theorem compareDouble_natCast {m n : Nat} : compareDouble m n = true ↔ m = n := by
  constructor
  · intro h
    by_contra hne
    have hone : (1 : ℚ) ≤ |(m : ℚ) - n| := by
      have hint : (1 : ℤ) ≤ |(m : ℤ) - n| := Int.one_le_abs (by omega)
      exact_mod_cast hint
    have hnormal : (2 : ℚ) ^ (-1022 : ℤ) ≤ |(m : ℚ) - n| :=
      le_trans (zpow_le_one_of_nonpos₀ (by norm_num) (by norm_num)) hone
    have hround := Binary64.abs_nearest_sub_le_of_normal hnormal
    have htri := abs_sub_abs_le_abs_sub ((m : ℚ) - n) (Binary64.nearest (m - n))
    rw [abs_sub_comm] at hround
    have hsmall : Binary64.nearest (1 / 10 ^ 16) < 1 / 2 := by decide +kernel
    rw [compareDouble, decide_eq_true_eq] at h
    have hhalf : |(m : ℚ) - n| / 2 ^ 53 ≤ |(m : ℚ) - n| / 2 :=
      div_le_div_of_nonneg_left (abs_nonneg _) (by norm_num) (by norm_num)
    linarith
  · rintro rfl
    exact compareDouble_self m

/-- A whole double that is not negative, with fifteen significant digits where these read back as
the same double, and with seventeen otherwise. -/
def numberText (d : Nat) : List UInt8 :=
  match (strtod (formatG 15 d)).1 with
  | .finite test => if compareDouble test d then formatG 15 d else formatG 17 d
  | .infinite _ => formatG 17 d

variable {d : Nat}

theorem numberText_cases (d : Nat) :
    numberText d = formatG 17 d ∨
      numberText d = formatG 15 d ∧ ∃ test, (strtod (formatG 15 d)).1 = .finite test ∧
        compareDouble test d = true := by
  unfold numberText
  split
  · rename_i test htest
    split_ifs with h
    · exact .inr ⟨rfl, test, htest, h⟩
    · exact .inl rfl
  · exact .inl rfl

/-- What is printed for a whole double is read back as the same double. -/
theorem strtod_numberText (hd : toDouble d = d) (hfin : d < 2 ^ 1024) :
    strtod (numberText d) = (.finite d, (numberText d).length) := by
  have hplain {p : Nat} (h : d < 10 ^ p) : strtod (formatG p d) = (.finite d, (formatG p d).length) := by
    rw [strtod_formatG_of_lt h, round_natCast hd hfin]
  rcases numberText_cases d with h17 | ⟨h15, test, htest, hcmp⟩
  · rw [h17]
    rcases lt_or_ge d (10 ^ 17) with h | h
    · exact hplain h
    · rw [strtod_formatG_of_le (by decide) h, round_natCast (toDouble_seventeen hd h) hfin]
  · rw [h15]
    rcases lt_or_ge d (10 ^ 15) with h | h
    · exact hplain h
    · rw [strtod_formatG_of_le (by decide) h] at htest ⊢
      have hq := toDouble_of_round htest
      have hback : test = d := by
        rw [hq] at hcmp ⊢
        exact_mod_cast compareDouble_natCast.mp hcmp
      rw [← hback]
      exact Prod.ext htest rfl

theorem isNumberByte_numberText : ∀ b ∈ numberText d, isNumberByte b = true := by
  rcases numberText_cases d with h | ⟨h, -⟩
  · rw [h]
    exact isNumberByte_formatG (by decide)
  · rw [h]
    exact isNumberByte_formatG (by decide)

theorem numberText_cons (d : Nat) : ∃ b t, numberText d = b :: t ∧ isDigit b = true := by
  rcases numberText_cases d with h | ⟨h, -⟩
  · rw [h]
    exact formatG_cons (by decide)
  · rw [h]
    exact formatG_cons (by decide)

theorem length_numberText_le (hfin : d < 2 ^ 1024) : (numberText d).length ≤ 25 := by
  have hlog : Nat.log 10 d < 9998 := by
    rcases Nat.eq_zero_or_pos d with rfl | hpos
    · simp
    have hten (k : Nat) : 2 ^ k ≤ 10 ^ k := Nat.pow_le_pow_left (by decide) k
    have := Nat.log_lt_of_lt_pow hpos.ne' (hfin.trans_le (hten _))
    omega
  rcases numberText_cases d with h | ⟨h, -⟩
  · rw [h]
    exact length_formatG_le (by decide) hlog
  · rw [h]
    exact (length_formatG_le (by decide) hlog).trans (by decide)

end NumberText

section Text

/-- The letter that stands behind a backslash for a byte with a short escape. -/
def escapeLetter (c : UInt8) : Option UInt8 :=
  if c = 0x22 then some 0x22
  else if c = 0x5c then some 0x5c
  else if c = 0x08 then some 0x62
  else if c = 0x0c then some 0x66
  else if c = 0x0a then some 0x6e
  else if c = 0x0d then some 0x72
  else if c = 0x09 then some 0x74
  else none

def hexDigit (n : Nat) : UInt8 := UInt8.ofNat (if n < 10 then 0x30 + n else 0x57 + n)

/-- `%04x` of a byte. -/
def hex4 (c : UInt8) : List UInt8 := [0x30, 0x30, hexDigit (c.toNat / 16), hexDigit (c.toNat % 16)]

def escaped (c : UInt8) : List UInt8 :=
  match escapeLetter c with
  | some letter => [0x5c, letter]
  | none => if c < 32 then 0x5c :: 0x75 :: hex4 c else [c]

def quoted (s : CString) : List UInt8 := 0x22 :: (s.bytes.flatMap escaped ++ [0x22])

def separator (format : Bool) : List UInt8 := if format then [0x2c, 0x20] else [0x2c]

def tabs (format : Bool) (depth : Nat) : List UInt8 :=
  if format then List.replicate depth 0x09 else []

def lineEnd (format : Bool) : List UInt8 := if format then [0x0a] else []

def colon (format : Bool) : List UInt8 := if format then [0x3a, 0x09] else [0x3a]

/-- The comma and the line end behind a member, in front of the members `rest`. -/
def memberEnd (format : Bool) (rest : List (CString × JsonItem Nat)) : List UInt8 :=
  (if rest = [] then [] else [0x2c]) ++ lineEnd format

mutual

/-- The text of an item of whole numbers whose line is indented by `depth` tabs. -/
def JsonItem.text (format : Bool) (depth : Nat) : JsonItem Nat → List UInt8
  | .null => (CString.literal "null").bytes
  | .bool false => (CString.literal "false").bytes
  | .bool true => (CString.literal "true").bytes
  | .number d => numberText d
  | .string s => quoted s
  | .array items => 0x5b :: (elementsText format (depth + 1) items ++ [0x5d])
  | .object members =>
    0x7b :: (lineEnd format ++ membersText format (depth + 1) members ++ tabs format depth ++ [0x7d])

def elementsText (format : Bool) (depth : Nat) : List (JsonItem Nat) → List UInt8
  | [] => []
  | item :: items =>
    item.text format depth ++ (if items = [] then [] else separator format) ++
      elementsText format depth items

def membersText (format : Bool) (depth : Nat) : List (CString × JsonItem Nat) → List UInt8
  | [] => []
  | (key, item) :: members =>
    tabs format depth ++ quoted key ++ colon format ++ item.text format depth ++
      memberEnd format members ++ membersText format depth members

end

end Text

end Tcpkit
