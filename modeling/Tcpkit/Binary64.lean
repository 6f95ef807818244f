import Mathlib.Algebra.Order.Field.Power
import Mathlib.Algebra.Order.Floor.Ring
import Mathlib.Data.Int.Log
import Mathlib.Data.Rat.Floor
import Mathlib.Tactic.FieldSimp
import Mathlib.Tactic.Linarith
import Mathlib.Tactic.NormNum
import Mathlib.Tactic.Positivity

/-! Rounding of rational numbers to integers and to binary64 floating point, to the nearest
with ties to even. -/

namespace Binary64

def roundEven (q : ℚ) : ℤ :=
  if q - ⌊q⌋ < 1 / 2 then ⌊q⌋
  else if 1 / 2 < q - ⌊q⌋ then ⌊q⌋ + 1
  else ⌊q⌋ + ⌊q⌋ % 2

/-- The exponent of the leading bit; below the least normal number it stays where it is. -/
def exponent (q : ℚ) : ℤ := max (Int.log 2 |q|) (-1022)

def ulp (q : ℚ) : ℚ := 2 ^ (exponent q - 52)

def nearest (q : ℚ) : ℚ := roundEven (q / ulp q) * ulp q

inductive Double where
  | finite (value : ℚ)
  | infinite (negative : Bool)
  deriving DecidableEq

def round (q : ℚ) : Double :=
  if |nearest q| < 2 ^ 1024 then .finite (nearest q) else .infinite (decide (q < 0))

theorem abs_roundEven_sub_le (q : ℚ) : |roundEven q - q| ≤ 1 / 2 := by
  have hlo := Int.floor_le q
  have hhi := Int.lt_floor_add_one q
  unfold roundEven
  split_ifs with h1 h2
  · rw [abs_le]
    constructor <;> linarith
  · rw [abs_le]
    push_cast
    constructor <;> linarith
  · have hm : ⌊q⌋ % 2 = 0 ∨ ⌊q⌋ % 2 = 1 := by omega
    rw [abs_le]
    rcases hm with hm | hm
    · rw [hm]
      push_cast
      constructor <;> linarith
    · rw [hm]
      push_cast
      constructor <;> linarith

/-- Two integers that are less than one apart are the same. -/
theorem roundEven_eq_of_abs_sub_lt {q : ℚ} {k : ℤ} (h : |q - k| < 1 / 2) : roundEven q = k := by
  have hr := abs_roundEven_sub_le q
  rw [abs_lt] at h
  rw [abs_le] at hr
  have hlt : (roundEven q : ℚ) < k + 1 := by linarith
  have hgt : (k : ℚ) < roundEven q + 1 := by linarith
  have hlt' : roundEven q < k + 1 := by exact_mod_cast hlt
  have hgt' : k < roundEven q + 1 := by exact_mod_cast hgt
  omega

theorem roundEven_intCast (k : ℤ) : roundEven k = k :=
  roundEven_eq_of_abs_sub_lt (by simp)

theorem ulp_pos (q : ℚ) : 0 < ulp q := by
  unfold ulp
  positivity

theorem abs_nearest_sub_le (q : ℚ) : |nearest q - q| ≤ ulp q / 2 := by
  have hu := ulp_pos q
  have hr := abs_roundEven_sub_le (q / ulp q)
  calc |nearest q - q| = |(roundEven (q / ulp q) - q / ulp q) * ulp q| := by
        rw [nearest, sub_mul, div_mul_cancel₀ q hu.ne']
    _ = |roundEven (q / ulp q) - q / ulp q| * ulp q := by rw [abs_mul, abs_of_pos hu]
    _ ≤ 1 / 2 * ulp q := mul_le_mul_of_nonneg_right hr hu.le
    _ = ulp q / 2 := by ring

theorem ulp_le {q : ℚ} (h : (2 : ℚ) ^ (-1022 : ℤ) ≤ |q|) : ulp q ≤ |q| / 2 ^ 52 := by
  have hpos : (0 : ℚ) < |q| := lt_of_lt_of_le (by positivity) h
  have hlog : -1022 ≤ Int.log 2 |q| := (Int.zpow_le_iff_le_log (by norm_num) hpos).mp (by exact_mod_cast h)
  have hle : (2 : ℚ) ^ Int.log 2 |q| ≤ |q| := by
    exact_mod_cast Int.zpow_log_le_self (b := 2) (by norm_num) hpos
  rw [ulp, exponent, max_eq_left hlog, zpow_sub₀ (by norm_num)]
  exact div_le_div_of_nonneg_right hle (by positivity)

/-- Rounding a normal number changes it by at most one part in `2 ^ 53`. -/
theorem abs_nearest_sub_le_of_normal {q : ℚ} (h : (2 : ℚ) ^ (-1022 : ℤ) ≤ |q|) :
    |nearest q - q| ≤ |q| / 2 ^ 53 := by
  have hn := abs_nearest_sub_le q
  have hu := ulp_le h
  calc |nearest q - q| ≤ ulp q / 2 := hn
    _ ≤ |q| / 2 ^ 52 / 2 := by linarith
    _ = |q| / 2 ^ 53 := by ring

/-- A multiple of the unit in the last place is its own rounding. -/
theorem nearest_of_eq_mul {q : ℚ} {k : ℤ} (h : q = k * ulp q) : nearest q = q := by
  have hd : q / ulp q = k := by
    rw [div_eq_iff (ulp_pos q).ne']
    exact h
  rw [nearest, hd, roundEven_intCast, ← h]

end Binary64
