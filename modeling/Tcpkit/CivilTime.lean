import Tcpkit.PrintedNumbers

/-! What `localtime` and `strftime` make of a time where the zone is UTC. -/

namespace Tcpkit

open DecimalText

structure CivilTime where
  year : Int
  month : Int
  day : Int
  hour : Int
  minute : Int
  second : Int

/-- Years are counted from March on, so that a leap day is the last of its year, and in eras of
four centuries. -/
def utcTime (t : Int) : CivilTime :=
  let days := t / 86400 + 719468
  let dayOfEra := days % 146097
  let yearOfEra := (dayOfEra - dayOfEra / 1460 + dayOfEra / 36524 - dayOfEra / 146096) / 365
  let dayOfYear := dayOfEra - (365 * yearOfEra + yearOfEra / 4 - yearOfEra / 100)
  let monthFromMarch := (5 * dayOfYear + 2) / 153
  let month := if monthFromMarch < 10 then monthFromMarch + 3 else monthFromMarch - 9
  { year := days / 146097 * 400 + yearOfEra + (if month ≤ 2 then 1 else 0)
    month := month
    day := dayOfYear - (153 * monthFromMarch + 2) / 5 + 1
    hour := t % 86400 / 3600
    minute := t % 3600 / 60
    second := t % 60 }

/-- `"%Y-%m-%d"`. -/
def CivilTime.dateText (c : CivilTime) : List UInt8 :=
  zeroPadded 4 c.year ++ 0x2d :: (zeroPadded 2 c.month ++ 0x2d :: zeroPadded 2 c.day)

/-- `"%H:%M:%S"`. -/
def CivilTime.timeText (c : CivilTime) : List UInt8 :=
  zeroPadded 2 c.hour ++ 0x3a :: (zeroPadded 2 c.minute ++ 0x3a :: zeroPadded 2 c.second)

def CivilTime.dateTimeText (c : CivilTime) : List UInt8 := c.dateText ++ 0x20 :: c.timeText

/-- A text that does not fit with its NUL is not stored. -/
def strftime (max : Nat) (text : List UInt8) : List UInt8 := if text.length < max then text else []

example : (utcTime 951868799).dateTimeText = "2000-02-29 23:59:59".toUTF8.toList := by decide +kernel

theorem length_strftime_lt {max : Nat} (h : 0 < max) (text : List UInt8) :
    (strftime max text).length < max := by
  rw [strftime]
  split_ifs with hfits
  · exact hfits
  · exact h

theorem mem_of_mem_strftime {max : Nat} {text : List UInt8} {b : UInt8}
    (h : b ∈ strftime max text) : b ∈ text := by
  rw [strftime] at h
  split_ifs at h
  · exact h
  · cases h

theorem isDigit_of_mem_zeroPadded {w : Nat} {n : Int} (hn : 0 ≤ n) {b : UInt8}
    (h : b ∈ zeroPadded w n) : isDigit b = true := by
  rw [zeroPadded, if_neg (by omega)] at h
  exact isDigit_zeros h

theorem utcTime_timeText_bytes {t : Int} {b : UInt8} (h : b ∈ (utcTime t).timeText) :
    isDigit b = true ∨ b = 0x3a := by
  have hhour : 0 ≤ (utcTime t).hour := Int.ediv_nonneg (Int.emod_nonneg _ (by decide)) (by decide)
  have hminute : 0 ≤ (utcTime t).minute := Int.ediv_nonneg (Int.emod_nonneg _ (by decide)) (by decide)
  have hsecond : 0 ≤ (utcTime t).second := Int.emod_nonneg _ (by decide)
  simp only [CivilTime.timeText, List.mem_append, List.mem_cons] at h
  rcases h with h | rfl | h | rfl | h
  · exact .inl (isDigit_of_mem_zeroPadded hhour h)
  · exact .inr rfl
  · exact .inl (isDigit_of_mem_zeroPadded hminute h)
  · exact .inr rfl
  · exact .inl (isDigit_of_mem_zeroPadded hsecond h)

theorem dateText_bytes {c : CivilTime} {b : UInt8} (h : b ∈ c.dateText) :
    isDigit b = true ∨ b = 0x2d := by
  simp only [CivilTime.dateText, List.mem_append, List.mem_cons] at h
  rcases h with h | rfl | h | rfl | h
  · exact (zeroPadded_bytes h).symm
  · exact .inr rfl
  · exact (zeroPadded_bytes h).symm
  · exact .inr rfl
  · exact (zeroPadded_bytes h).symm

end Tcpkit
