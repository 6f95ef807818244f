import Mathlib.Data.List.Basic
import Mathlib.Data.List.TakeWhile
import Mathlib.Data.Nat.Digits.Defs
import Mathlib.Tactic.NormNum

/-! NUL-terminated byte strings, the comparison the C library makes between
them, and the decimal renderings that `snprintf` writes into a buffer. -/

section Separator

variable {α : Type} [DecidableEq α] {sep : α}

theorem takeWhile_ne_append {x z : List α} (hx : sep ∉ x) (hz : ∀ y ∈ z.head?, y = sep) :
    (x ++ z).takeWhile (fun y => y ≠ sep) = x := by
  have hall : ∀ y ∈ x, decide (y ≠ sep) = true := by
    intro y hy
    rw [decide_eq_true_eq]
    intro he
    exact hx (he ▸ hy)
  have hstop : z.takeWhile (fun y => decide (y ≠ sep)) = [] := by
    cases z with
    | nil => rfl
    | cons y z => exact List.takeWhile_cons_of_neg (by simp [hz y rfl])
  rw [List.takeWhile_append_of_pos hall, hstop, List.append_nil]

/-- Two lists that are cut at the first separator agree before it and behind it. -/
theorem append_inj_of_notMem {a b c d : List α} (ha : sep ∉ a) (hc : sep ∉ c)
    (hb : ∀ y ∈ b.head?, y = sep) (hd : ∀ y ∈ d.head?, y = sep) : a ++ b = c ++ d ↔ a = c ∧ b = d := by
  constructor
  · intro h
    have hac : a = c := by
      have hcut := congrArg (List.takeWhile (fun y => decide (y ≠ sep))) h
      rwa [takeWhile_ne_append ha hb, takeWhile_ne_append hc hd] at hcut
    rw [hac] at h
    exact ⟨hac, List.append_cancel_left h⟩
  · rintro ⟨rfl, rfl⟩
    rfl

end Separator

/-- The bytes before the terminating NUL. -/
structure CString where
  bytes : List UInt8
  noNul : 0 ∉ bytes
  deriving DecidableEq

namespace CString

@[ext]
theorem ext {a b : CString} (h : a.bytes = b.bytes) : a = b := by
  cases a
  cases b
  simpa using h

def strlen (s : CString) : Nat := s.bytes.length

/-- `strncmp(a, b, n) == 0`: no difference among the first `n` characters,
where a terminating NUL counts as a character. -/
def strncmpEq (a b : CString) (n : Nat) : Bool :=
  (a.bytes ++ [0]).take n == (b.bytes ++ [0]).take n

theorem strncmpEq_strlen {a b : CString} (h : a.strlen = b.strlen) :
    strncmpEq a b a.strlen = true ↔ a = b := by
  have ha : (a.bytes ++ [0]).take a.strlen = a.bytes := List.take_left
  have hb : (b.bytes ++ [0]).take a.strlen = b.bytes := by rw [h]; exact List.take_left
  rw [strncmpEq, beq_iff_eq, ha, hb, CString.ext_iff]

def snprintf (cap : Nat) (text : CString) : CString where
  bytes := text.bytes.take (cap - 1)
  noNul := fun h => text.noNul (List.mem_of_mem_take h)

theorem snprintf_eq_self {cap : Nat} {text : CString} (h : text.strlen < cap) :
    snprintf cap text = text := by
  apply CString.ext
  exact List.take_of_length_le (by unfold strlen at h; omega)

def append (a b : CString) : CString where
  bytes := a.bytes ++ b.bytes
  noNul := by simp [a.noNul, b.noNul]

def singleton (c : UInt8) (h : c ≠ 0) : CString where
  bytes := [c]
  noNul := by simpa using h.symm

theorem toNat_of_mem_toDigits {n : Nat} {c : Char} (h : c ∈ Nat.toDigits 10 n) :
    48 ≤ c.toNat ∧ c.toNat ≤ 57 := by
  have hd := Nat.isDigit_of_mem_toDigits (by decide) (by decide) h
  simpa [Char.isDigit, UInt32.le_iff_toNat_le] using hd

theorem toNat_ofNat_digit {n : Nat} {c : Char} (h : c ∈ Nat.toDigits 10 n) :
    (UInt8.ofNat c.toNat).toNat = c.toNat := by
  have hr := toNat_of_mem_toDigits h
  rw [UInt8.toNat_ofNat', Nat.mod_eq_of_lt (by omega)]

def decimal (n : Nat) : CString where
  bytes := (Nat.toDigits 10 n).map (fun c => UInt8.ofNat c.toNat)
  noNul := by
    simp only [List.mem_map, not_exists, not_and]
    intro c hc h0
    have hr := toNat_of_mem_toDigits hc
    have ht := toNat_ofNat_digit hc
    rw [h0] at ht
    simp only [UInt8.toNat_zero] at ht
    omega

theorem toNat_of_mem_decimal {n : Nat} {b : UInt8} (h : b ∈ (decimal n).bytes) :
    48 ≤ b.toNat ∧ b.toNat ≤ 57 := by
  obtain ⟨c, hc, rfl⟩ := List.mem_map.mp h
  rw [toNat_ofNat_digit hc]
  exact toNat_of_mem_toDigits hc

theorem strlen_decimal_le {n k : Nat} (hk : 0 < k) (h : n < 10 ^ k) : (decimal n).strlen ≤ k := by
  simpa [strlen, decimal] using (Nat.length_toDigits_le_iff (by decide) hk).mpr h

theorem decimal_injective : Function.Injective decimal := by
  intro m n h
  have hback (k : Nat) :
      (decimal k).bytes.map (fun b => Char.ofNat b.toNat) = Nat.toDigits 10 k := by
    rw [decimal, List.map_map]
    refine (List.map_congr_left fun c hc => ?_).trans (List.map_id _)
    simp [toNat_ofNat_digit hc, Char.ofNat_toNat]
  have he : Nat.toDigits 10 m = Nat.toDigits 10 n := by rw [← hback m, ← hback n, h]
  have hd := congrArg (fun l => Nat.ofDigitChars 10 l 0) he
  simpa only [Nat.ofDigitChars_ten_toDigits] using hd

def joined (sep : UInt8) (hs : sep ≠ 0) (a b : CString) : CString :=
  a.append ((singleton sep hs).append b)

theorem joined_bytes (sep : UInt8) (hs : sep ≠ 0) (a b : CString) :
    (joined sep hs a b).bytes = a.bytes ++ sep :: b.bytes := rfl

theorem strlen_joined (sep : UInt8) (hs : sep ≠ 0) (a b : CString) :
    (joined sep hs a b).strlen = a.strlen + b.strlen + 1 := by
  simp [strlen, joined_bytes]
  omega

theorem joined_inj {sep : UInt8} {hs : sep ≠ 0} {a b c d : CString}
    (ha : sep ∉ a.bytes) (hb : sep ∉ b.bytes) :
    joined sep hs a b = joined sep hs c d ↔ a = c ∧ b = d := by
  rw [CString.ext_iff, joined_bytes, joined_bytes, List.append_cons_inj_of_notMem ha hb,
    CString.ext_iff, CString.ext_iff]
  simp

/-- Two strings joined at the first separator have the same first part and the same rest. -/
theorem joined_inj_left {sep : UInt8} {hs : sep ≠ 0} {a b c d : CString}
    (ha : sep ∉ a.bytes) (hc : sep ∉ c.bytes) (h : joined sep hs a b = joined sep hs c d) :
    a = c ∧ b = d := by
  rw [CString.ext_iff, joined_bytes, joined_bytes] at h
  obtain ⟨hac, hbd⟩ := (append_inj_of_notMem ha hc (by simp) (by simp)).mp h
  exact ⟨CString.ext hac, CString.ext (List.cons.inj hbd).2⟩

/-- A string literal as the C library sees it. -/
def literal (s : String) : CString where
  bytes := s.toUTF8.toList.takeWhile (fun c => c ≠ 0)
  noNul := fun h => by simpa using List.mem_takeWhile_imp h

end CString
