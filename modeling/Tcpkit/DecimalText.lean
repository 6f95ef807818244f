import Mathlib.Data.List.DropRight
import Tcpkit.Binary64
import Tcpkit.CString

/-! Decimal renderings of whole floating-point numbers: the `%g` conversion of `printf` and
the reading of a decimal number by `strtod`. -/

namespace DecimalText

def isDigit (b : UInt8) : Bool := decide (0x30 ≤ b) && decide (b ≤ 0x39)

def digitValue (b : UInt8) : Nat := b.toNat - 0x30

def digitsValue (ds : List UInt8) : Nat := ds.foldl (fun n b => 10 * n + digitValue b) 0

/-- The quotient rounded to the nearest integer, ties to even. -/
def roundDiv (n d : Nat) : Nat :=
  if 2 * (n % d) > d ∨ 2 * (n % d) = d ∧ n / d % 2 = 1 then n / d + 1 else n / d

/-- The `p` significant digits of `n`, as a number, and the exponent of the first of them. -/
def significant (p n : Nat) : Nat × Nat :=
  let x := Nat.log 10 n
  let m := roundDiv n (10 ^ (x + 1 - p))
  if m = 10 ^ p then (10 ^ (p - 1), x + 1) else (m, x)

def stripZeros (ds : List UInt8) : List UInt8 := ds.rdropWhile (fun b => b = 0x30)

def exponentText (x : Nat) : List UInt8 :=
  [0x65, 0x2b] ++ (if x < 10 then [0x30] else []) ++ (CString.decimal x).bytes

/-- `%.{p}g`: the plain digits where `p` of them suffice, else one digit, the rest of them
behind a point without its trailing zeros, and the exponent. -/
def formatG (p n : Nat) : List UInt8 :=
  if n < 10 ^ p then (CString.decimal n).bytes
  else
    let r := significant p n
    let ds := (CString.decimal r.1).bytes
    let fraction := stripZeros ds.tail
    ds.take 1 ++ (if fraction = [] then [] else 0x2e :: fraction) ++ exponentText r.2

/-- A sign, and what is behind it. -/
def scanSign : List UInt8 → Bool × List UInt8
  | c :: s => if c = 0x2d then (true, s) else if c = 0x2b then (false, s) else (false, c :: s)
  | [] => (false, [])

/-- An exponent counts only with at least one digit. -/
def scanExponent (s : List UInt8) : Int × List UInt8 :=
  match s with
  | c :: s' =>
    if c = 0x65 ∨ c = 0x45 then
      let signed := scanSign s'
      let ds := signed.2.takeWhile isDigit
      if ds = [] then (0, s)
      else (if signed.1 then -digitsValue ds else digitsValue ds, signed.2.drop ds.length)
    else (0, s)
  | [] => (0, [])

def scanFraction (s : List UInt8) : List UInt8 × List UInt8 :=
  match s with
  | c :: s' =>
    if c = 0x2e then (s'.takeWhile isDigit, s'.dropWhile isDigit) else ([], s)
  | [] => ([], [])

/-- `strtod` on a text without leading space: the number, and how many bytes it took.
Hexadecimal numbers, infinities and NaNs are left out. -/
def strtod (s : List UInt8) : Binary64.Double × Nat :=
  let signed := scanSign s
  let whole := signed.2.takeWhile isDigit
  let fraction := scanFraction (signed.2.dropWhile isDigit)
  if whole = [] ∧ fraction.1 = [] then (.finite 0, 0)
  else
    let exponent := scanExponent fraction.2
    let magnitude : ℚ := digitsValue (whole ++ fraction.1) * (10 : ℚ) ^ (exponent.1 - fraction.1.length)
    (Binary64.round (if signed.1 then -magnitude else magnitude), s.length - exponent.2.length)

section Rounding

variable {n d k : Nat}

theorem roundDiv_bounds (hd : 0 < d) :
    2 * (roundDiv n d * d) ≤ 2 * n + d ∧ 2 * n ≤ 2 * (roundDiv n d * d) + d := by
  have hmod := Nat.mod_lt n hd
  have hdiv : n / d * d + n % d = n := Nat.div_add_mod' n d
  unfold roundDiv
  split_ifs with h
  · rw [Nat.add_mul, Nat.one_mul]
    omega
  · omega

/-- An integer less than half away is the rounding. -/
theorem roundDiv_eq (hd : 0 < d) (hlo : 2 * n < 2 * (k * d) + d) (hhi : 2 * (k * d) < 2 * n + d) :
    roundDiv n d = k := by
  obtain ⟨hle, hge⟩ := roundDiv_bounds (n := n) hd
  have hlt : roundDiv n d * d < (k + 1) * d := by
    rw [Nat.add_mul]
    omega
  have hgt : k * d < (roundDiv n d + 1) * d := by
    rw [Nat.add_mul]
    omega
  have h1 := Nat.lt_of_mul_lt_mul_right hlt
  have h2 := Nat.lt_of_mul_lt_mul_right hgt
  omega

theorem roundDiv_le_of_lt (hd : 0 < d) (h : n < k * d) : roundDiv n d ≤ k := by
  have hq : n / d < k := (Nat.div_lt_iff_lt_mul hd).mpr h
  unfold roundDiv
  split_ifs <;> omega

theorem le_roundDiv (hd : 0 < d) (h : k * d ≤ n) : k ≤ roundDiv n d := by
  have hq : k ≤ n / d := (Nat.le_div_iff_mul_le hd).mpr h
  unfold roundDiv
  split_ifs <;> omega

theorem roundEven_div (n d : Nat) (hd : 0 < d) : Binary64.roundEven ((n : ℚ) / d) = roundDiv n d := by
  have hfloor : ⌊(n : ℚ) / d⌋ = (n / d : Nat) := by
    rw [Int.floor_eq_iff]
    have hd' : (0 : ℚ) < d := by exact_mod_cast hd
    constructor
    · rw [le_div_iff₀ hd']
      exact_mod_cast Nat.div_mul_le_self n d
    · rw [div_lt_iff₀ hd']
      exact_mod_cast Nat.lt_mul_of_div_lt (Nat.lt_succ_self _) hd
  have hrest : (n : ℚ) / d - (n / d : Nat) = (n % d : Nat) / (d : ℚ) := by
    have hd' : (d : ℚ) ≠ 0 := by exact_mod_cast hd.ne'
    rw [sub_eq_iff_eq_add, div_add' _ _ _ hd', div_left_inj' hd', add_comm]
    exact_mod_cast (Nat.div_add_mod' n d).symm
  have hlt : (n % d : Nat) / (d : ℚ) < 1 / 2 ↔ 2 * (n % d) < d := by
    rw [div_lt_div_iff₀ (by exact_mod_cast hd) (by norm_num), one_mul, mul_comm]
    norm_cast
  have hgt : (1 : ℚ) / 2 < (n % d : Nat) / (d : ℚ) ↔ d < 2 * (n % d) := by
    rw [div_lt_div_iff₀ (by norm_num) (by exact_mod_cast hd), one_mul, mul_comm]
    norm_cast
  rw [Binary64.roundEven, hfloor, Int.cast_natCast, hrest, if_congr hlt rfl rfl,
    if_congr hgt rfl rfl, roundDiv]
  have hodd : n / d % 2 = 0 ∨ n / d % 2 = 1 := by omega
  split_ifs <;> omega

end Rounding

section Digits

theorem isDigit_iff {b : UInt8} : isDigit b = true ↔ 48 ≤ b.toNat ∧ b.toNat ≤ 57 := by
  simp [isDigit, UInt8.le_iff_toNat_le]

theorem isDigit_of_mem_decimal {n : Nat} {b : UInt8} (h : b ∈ (CString.decimal n).bytes) :
    isDigit b = true :=
  isDigit_iff.mpr (CString.toNat_of_mem_decimal h)

theorem digitsValue_append (a b : List UInt8) :
    digitsValue (a ++ b) = b.foldl (fun n c => 10 * n + digitValue c) (digitsValue a) :=
  List.foldl_append

theorem digitsValue_replicate_zero (a : List UInt8) (k : Nat) :
    digitsValue (a ++ List.replicate k 0x30) = digitsValue a * 10 ^ k := by
  induction k with
  | zero => simp
  | succ k ih =>
    rw [List.replicate_succ', ← List.append_assoc, digitsValue_append, ih, pow_succ]
    simp [digitValue]
    ring

theorem digitsValue_decimal (n : Nat) : digitsValue (CString.decimal n).bytes = n := by
  have hstep : ∀ (cs : List Char) (m : Nat), (∀ c ∈ cs, c ∈ Nat.toDigits 10 n) →
      (cs.map (fun c => UInt8.ofNat c.toNat)).foldl (fun k b => 10 * k + digitValue b) m =
        Nat.ofDigitChars 10 cs m := by
    intro cs
    induction cs with
    | nil =>
      intro m h
      rfl
    | cons c cs ih =>
      intro m h
      have hc : digitValue (UInt8.ofNat c.toNat) = c.toNat - 48 := by
        rw [digitValue, CString.toNat_ofNat_digit (h c List.mem_cons_self)]
      rw [List.map_cons, List.foldl_cons, hc, ih _ fun c' h' => h c' (List.mem_cons_of_mem c h')]
      rfl
  exact (hstep _ 0 fun c hc => hc).trans Nat.ofDigitChars_ten_toDigits

theorem length_decimal {n p : Nat} (hp : 0 < p) (hlo : 10 ^ (p - 1) ≤ n) (hhi : n < 10 ^ p) :
    (CString.decimal n).bytes.length = p := by
  have hle : (CString.decimal n).bytes.length ≤ p := CString.strlen_decimal_le hp hhi
  by_contra hne
  have hlt : (Nat.toDigits 10 n).length ≤ p - 1 := by
    simp only [CString.decimal, List.length_map] at hle hne
    omega
  rcases Nat.eq_zero_or_pos (p - 1) with h0 | h1
  · rw [h0] at hlt
    exact absurd (List.length_eq_zero_iff.mp (Nat.le_zero.mp hlt)) Nat.toDigits_ne_nil
  · exact absurd ((Nat.length_toDigits_le_iff (by decide) h1).mp hlt) (by omega)

theorem decimal_ne_nil (n : Nat) : (CString.decimal n).bytes ≠ [] := by
  simp [CString.decimal, Nat.toDigits_ne_nil]

theorem stripZeros_append (ds : List UInt8) :
    ∃ k, ds = stripZeros ds ++ List.replicate k 0x30 := by
  refine ⟨(ds.rtakeWhile (fun b => b = 0x30)).length, ?_⟩
  have hrep : ds.rtakeWhile (fun b => b = 0x30) =
      List.replicate (ds.rtakeWhile (fun b => b = 0x30)).length 0x30 :=
    List.eq_replicate_of_mem fun b hb => by simpa using List.mem_rtakeWhile_imp hb
  rw [← hrep, stripZeros, List.rdropWhile_append_rtakeWhile]

end Digits

section Scanning

variable {ds rest : List UInt8}

theorem takeWhile_digits (rest : List UInt8) (hds : ∀ b ∈ ds, isDigit b = true)
    (hrest : ∀ b ∈ rest.head?, isDigit b = false) : (ds ++ rest).takeWhile isDigit = ds := by
  rw [List.takeWhile_append_of_pos hds]
  cases rest with
  | nil => simp
  | cons b rest => rw [List.takeWhile_cons_of_neg (by simp [hrest b rfl]), List.append_nil]

theorem dropWhile_digits (rest : List UInt8) (hds : ∀ b ∈ ds, isDigit b = true)
    (hrest : ∀ b ∈ rest.head?, isDigit b = false) : (ds ++ rest).dropWhile isDigit = rest := by
  rw [List.dropWhile_append_of_pos hds]
  cases rest with
  | nil => simp
  | cons b rest => rw [List.dropWhile_cons_of_neg (by simp [hrest b rfl])]

theorem scanSign_digits (hne : ds ≠ []) (hds : ∀ b ∈ ds, isDigit b = true) (rest : List UInt8) :
    scanSign (ds ++ rest) = (false, ds ++ rest) := by
  cases ds with
  | nil => exact absurd rfl hne
  | cons b ds =>
    have hb := isDigit_iff.mp (hds b List.mem_cons_self)
    have h1 : b ≠ 0x2d := by
      rintro rfl
      exact absurd hb (by decide)
    have h2 : b ≠ 0x2b := by
      rintro rfl
      exact absurd hb (by decide)
    rw [List.cons_append, scanSign, if_neg h1, if_neg h2]

theorem strtod_snd_le (s : List UInt8) : (strtod s).2 ≤ s.length := by
  simp only [strtod]
  split
  · exact Nat.zero_le _
  · exact Nat.sub_le _ _

theorem strtod_digits (hne : ds ≠ []) (hds : ∀ b ∈ ds, isDigit b = true) :
    strtod ds = (Binary64.round (digitsValue ds), ds.length) := by
  have htake := takeWhile_digits [] hds (by simp)
  have hdrop := dropWhile_digits [] hds (by simp)
  have hsign := scanSign_digits hne hds []
  rw [List.append_nil] at htake hdrop hsign
  simp [strtod, hsign, htake, hdrop, scanFraction, scanExponent, hne]

theorem scanExponent_digits {e : List UInt8} (hne : e ≠ []) (he : ∀ b ∈ e, isDigit b = true) :
    scanExponent (0x65 :: 0x2b :: e) = ((digitsValue e : ℤ), []) := by
  have htake : e.takeWhile isDigit = e := by simpa using takeWhile_digits [] he (by simp)
  simp [scanExponent, scanSign, htake, hne]

theorem scanFraction_digits {f e : List UInt8} (hf : ∀ b ∈ f, isDigit b = true) :
    scanFraction ((if f = [] then [] else 0x2e :: f) ++ 0x65 :: e) = (f, 0x65 :: e) := by
  have hstop : ∀ b ∈ (0x65 :: e).head?, isDigit b = false := by simp [isDigit]
  by_cases hnil : f = []
  · simp [hnil, scanFraction]
  · rw [if_neg hnil, List.cons_append, scanFraction, if_pos rfl, takeWhile_digits _ hf hstop,
      dropWhile_digits _ hf hstop]

theorem strtod_scientific {d : UInt8} {f e : List UInt8} (hd : isDigit d = true)
    (hf : ∀ b ∈ f, isDigit b = true) (hne : e ≠ []) (he : ∀ b ∈ e, isDigit b = true) :
    strtod ([d] ++ (if f = [] then [] else 0x2e :: f) ++ 0x65 :: 0x2b :: e) =
      (Binary64.round (digitsValue (d :: f) * (10 : ℚ) ^ ((digitsValue e : ℤ) - f.length)),
        ([d] ++ (if f = [] then [] else 0x2e :: f) ++ 0x65 :: 0x2b :: e).length) := by
  have hstop : ∀ b ∈ ((if f = [] then [] else 0x2e :: f) ++ 0x65 :: 0x2b :: e).head?, isDigit b = false := by
    by_cases hnil : f = [] <;> simp [hnil, isDigit]
  have hds : ∀ b ∈ [d], isDigit b = true := by simpa using hd
  rw [List.append_assoc]
  simp only [strtod, scanSign_digits (List.cons_ne_nil d []) hds, takeWhile_digits _ hds hstop,
    dropWhile_digits _ hds hstop, scanFraction_digits hf, scanExponent_digits hne he]
  simp

end Scanning

section Significant

variable {p n : Nat}

/-- The number the significant digits stand for. -/
def significantValue (p n : Nat) : Nat :=
  (significant p n).1 * 10 ^ ((significant p n).2 + 1 - p)

theorem log_bounds (hp : 0 < p) (hn : 10 ^ p ≤ n) :
    10 ^ (p - 1) * 10 ^ (Nat.log 10 n + 1 - p) ≤ n ∧ n < 10 ^ p * 10 ^ (Nat.log 10 n + 1 - p) := by
  have hlog : p ≤ Nat.log 10 n := Nat.le_log_of_pow_le (by decide) hn
  have hpos : 0 < n := lt_of_lt_of_le (Nat.pow_pos (by decide)) hn
  constructor
  · rw [← pow_add, show p - 1 + (Nat.log 10 n + 1 - p) = Nat.log 10 n by omega]
    exact Nat.pow_log_le_self 10 hpos.ne'
  · rw [← pow_add, show p + (Nat.log 10 n + 1 - p) = Nat.log 10 n + 1 by omega]
    exact Nat.lt_pow_succ_log_self (by decide) n

theorem significant_fst (hp : 0 < p) (hn : 10 ^ p ≤ n) :
    10 ^ (p - 1) ≤ (significant p n).1 ∧ (significant p n).1 < 10 ^ p := by
  obtain ⟨hlo, hhi⟩ := log_bounds hp hn
  have hd : 0 < 10 ^ (Nat.log 10 n + 1 - p) := Nat.pow_pos (by decide)
  have hle := le_roundDiv hd hlo
  have hge := roundDiv_le_of_lt hd hhi
  have hstep : 10 ^ (p - 1) < 10 ^ p := Nat.pow_lt_pow_right (by decide) (by omega)
  simp only [significant]
  split_ifs with h
  · exact ⟨le_refl _, hstep⟩
  · exact ⟨hle, lt_of_le_of_ne hge h⟩

theorem le_significant_snd (hn : 10 ^ p ≤ n) : p ≤ (significant p n).2 := by
  have hlog : p ≤ Nat.log 10 n := Nat.le_log_of_pow_le (by decide) hn
  simp only [significant]
  split_ifs
  · exact hlog.trans (Nat.le_succ _)
  · exact hlog

theorem significant_snd_le : (significant p n).2 ≤ Nat.log 10 n + 1 := by
  simp only [significant]
  split_ifs
  · exact le_refl _
  · exact Nat.le_succ _

/-- The carry into one digit more leaves the number as it was rounded. -/
theorem significantValue_eq (hp : 0 < p) (hn : 10 ^ p ≤ n) :
    significantValue p n =
      roundDiv n (10 ^ (Nat.log 10 n + 1 - p)) * 10 ^ (Nat.log 10 n + 1 - p) := by
  have hlog : p ≤ Nat.log 10 n := Nat.le_log_of_pow_le (by decide) hn
  simp only [significantValue, significant]
  split_ifs with h
  · rw [h, ← pow_add, ← pow_add]
    congr 1
    omega
  · rfl

theorem significantValue_bounds (hp : 0 < p) (hn : 10 ^ p ≤ n) :
    2 * significantValue p n ≤ 2 * n + 10 ^ (Nat.log 10 n + 1 - p) ∧
      2 * n ≤ 2 * significantValue p n + 10 ^ (Nat.log 10 n + 1 - p) := by
  rw [significantValue_eq hp hn]
  exact roundDiv_bounds (Nat.pow_pos (by decide))

end Significant

section Reading

variable {p n : Nat}

theorem isDigit_exponent (x : Nat) :
    ∀ b ∈ (if x < 10 then [0x30] else []) ++ (CString.decimal x).bytes, isDigit b = true := by
  intro b hb
  rcases List.mem_append.mp hb with h | h
  · have hb0 : b = 0x30 := by
      split_ifs at h with hx
      · exact List.mem_singleton.mp h
      · cases h
    rw [hb0]
    rfl
  · exact isDigit_of_mem_decimal h

theorem digitsValue_exponent (x : Nat) :
    digitsValue ((if x < 10 then [0x30] else []) ++ (CString.decimal x).bytes) = x := by
  split_ifs
  · exact digitsValue_decimal x
  · exact digitsValue_decimal x

theorem strtod_formatG_of_lt (h : n < 10 ^ p) :
    strtod (formatG p n) = (Binary64.round n, (formatG p n).length) := by
  rw [formatG, if_pos h, strtod_digits (decimal_ne_nil n) fun b => isDigit_of_mem_decimal,
    digitsValue_decimal]

/-- The digits kept and their exponent, as the conversion writes them. -/
theorem formatG_eq (hp : 0 < p) (hn : 10 ^ p ≤ n) :
    ∃ d f, isDigit d = true ∧ (∀ b ∈ f, isDigit b = true) ∧ f.length ≤ p - 1 ∧
      digitsValue (d :: f) * 10 ^ (p - 1 - f.length) = (significant p n).1 ∧
      formatG p n = [d] ++ (if f = [] then [] else 0x2e :: f) ++ exponentText (significant p n).2 := by
  obtain ⟨hlo, hhi⟩ := significant_fst hp hn
  have hlen := length_decimal hp hlo hhi
  obtain ⟨d, t, hdt⟩ := List.exists_cons_of_ne_nil (decimal_ne_nil (significant p n).1)
  obtain ⟨k, hk⟩ := stripZeros_append t
  have hdig : ∀ b ∈ d :: t, isDigit b = true := fun b hb => isDigit_of_mem_decimal (hdt ▸ hb)
  have hklen : t.length = (stripZeros t).length + k := by
    conv_lhs => rw [hk]
    simp
  have hkp : p - 1 - (stripZeros t).length = k := by
    rw [hdt, List.length_cons] at hlen
    omega
  refine ⟨d, stripZeros t, hdig d List.mem_cons_self, fun b hb => ?_, ?_, ?_, ?_⟩
  · refine hdig b (List.mem_cons_of_mem d ?_)
    rw [hk]
    exact List.mem_append_left _ hb
  · rw [hdt, List.length_cons] at hlen
    omega
  · rw [hkp, ← digitsValue_replicate_zero, List.cons_append, ← hk, ← hdt, digitsValue_decimal]
  · rw [formatG, if_neg (by omega)]
    simp only [hdt, List.take_succ_cons, List.take_zero, List.tail_cons]

theorem strtod_formatG_of_le (hp : 0 < p) (hn : 10 ^ p ≤ n) :
    strtod (formatG p n) = (Binary64.round (significantValue p n), (formatG p n).length) := by
  obtain ⟨d, f, hd, hf, hlen, hval, htext⟩ := formatG_eq hp hn
  have hx := le_significant_snd hn
  have hne : (if (significant p n).2 < 10 then [0x30] else []) ++
      (CString.decimal (significant p n).2).bytes ≠ [] := by
    simp [decimal_ne_nil]
  have hscan := strtod_scientific hd hf hne (isDigit_exponent (significant p n).2)
  rw [digitsValue_exponent] at hscan
  have hscale : ((significant p n).2 : ℤ) - f.length =
      ((p - 1 - f.length : Nat) : ℤ) + ((significant p n).2 + 1 - p : Nat) := by omega
  have hnum : digitsValue (d :: f) * (10 : ℚ) ^ (((significant p n).2 : ℤ) - f.length) =
      (significantValue p n : ℚ) := by
    rw [hscale, zpow_add₀ (by norm_num), zpow_natCast, zpow_natCast, ← mul_assoc, significantValue, ← hval]
    push_cast
    rfl
  rw [hnum] at hscan
  rw [htext, exponentText]
  simpa only [List.append_assoc, List.cons_append, List.nil_append] using hscan

end Reading

section Shape

variable {p n : Nat}

def isNumberByte (b : UInt8) : Bool :=
  isDigit b || b == 0x2b || b == 0x2d || b == 0x65 || b == 0x45 || b == 0x2e

theorem isNumberByte_of_isDigit {b : UInt8} (h : isDigit b = true) : isNumberByte b = true := by
  simp [isNumberByte, h]

theorem isNumberByte_exponentText (x : Nat) : ∀ b ∈ exponentText x, isNumberByte b = true := by
  intro b hb
  rw [exponentText, List.append_assoc] at hb
  rcases List.mem_append.mp hb with h | h
  · rcases List.mem_pair.mp h with rfl | rfl
    · rfl
    · rfl
  · exact isNumberByte_of_isDigit (isDigit_exponent x b h)

theorem isNumberByte_formatG (hp : 0 < p) : ∀ b ∈ formatG p n, isNumberByte b = true := by
  intro b hb
  by_cases hn : n < 10 ^ p
  · rw [formatG, if_pos hn] at hb
    exact isNumberByte_of_isDigit (isDigit_of_mem_decimal hb)
  obtain ⟨d, f, hd, hf, -, -, htext⟩ := formatG_eq hp (not_lt.mp hn)
  rw [htext] at hb
  rcases List.mem_append.mp hb with h | h
  · rcases List.mem_append.mp h with h | h
    · exact isNumberByte_of_isDigit (List.mem_singleton.mp h ▸ hd)
    · split_ifs at h
      · cases h
      · rcases List.mem_cons.mp h with rfl | h
        · rfl
        · exact isNumberByte_of_isDigit (hf b h)
  · exact isNumberByte_exponentText _ b h

theorem formatG_cons (hp : 0 < p) : ∃ d t, formatG p n = d :: t ∧ isDigit d = true := by
  by_cases hn : n < 10 ^ p
  · obtain ⟨d, t, h⟩ := List.exists_cons_of_ne_nil (decimal_ne_nil n)
    refine ⟨d, t, ?_, isDigit_of_mem_decimal (n := n) (h ▸ List.mem_cons_self)⟩
    rw [formatG, if_pos hn, h]
  · obtain ⟨d, f, hd, -, -, -, htext⟩ := formatG_eq hp (not_lt.mp hn)
    exact ⟨d, _, htext, hd⟩

theorem length_formatG_le (hp : 0 < p) (h : Nat.log 10 n < 9998) : (formatG p n).length ≤ p + 8 := by
  by_cases hn : n < 10 ^ p
  · rw [formatG, if_pos hn]
    exact (CString.strlen_decimal_le hp hn).trans (Nat.le_add_right p 8)
  obtain ⟨d, f, -, -, hf, -, htext⟩ := formatG_eq hp (not_lt.mp hn)
  have hx : (CString.decimal (significant p n).2).bytes.length ≤ 4 := by
    have hle := significant_snd_le (p := p) (n := n)
    exact CString.strlen_decimal_le (by decide) (by omega)
  have hpoint : (if f = [] then [] else 0x2e :: f).length ≤ f.length + 1 := by
    split_ifs <;> simp
  have hpad : (if (significant p n).2 < 10 then [(0x30 : UInt8)] else []).length ≤ 1 := by
    split_ifs <;> simp
  rw [htext, exponentText]
  simp only [List.length_append, List.length_cons, List.length_nil]
  omega

end Shape

end DecimalText
