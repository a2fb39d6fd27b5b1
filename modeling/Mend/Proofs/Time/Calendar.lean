import Mend.Time
import Mathlib.Tactic.IntervalCases

/-!
# The calendar

The number of a day is taken apart into eras of 400 years, their centuries, their cycles of four
years and the days of a cycle (`exists_cycles`). From these the year of an era, the day of a year
that begins in March and the month follow, and a date is always one that exists (`dateOf_exists`)
and has the number that it was made from (`dayNumber_dateOf`), so that no two days have the same date
(`dateOf_inj`).
-/

namespace Mend.Time

/-- The parts of a day of an era: its century, its cycle of four years in it, and its day in the
cycle. -/
structure Cycles (dayOfEra c q s : Int) : Prop where
  century : 0 ≤ c ∧ c ≤ 3
  cycle : 0 ≤ q ∧ q ≤ 24
  day : 0 ≤ s ∧ s ≤ 1460
  leap : s = 1460 → q < 24 ∨ c = 3
  eq : dayOfEra = 36524 * c + 1461 * q + s

theorem exists_cycles {e : Int} (h0 : 0 ≤ e) (h1 : e < 146097) : ∃ c q s, Cycles e c q s := by
  by_cases hlast : e = 146096
  · exact ⟨3, 24, 1460, by decide, by decide, by decide, by decide, by omega⟩
  · exact ⟨e / 36524, e % 36524 / 1461, e % 36524 % 1461, by omega, by omega, by omega, by omega,
      by omega⟩

/-- The year of a cycle that a day is in. -/
def yearOfCycle (s : Int) : Int := min (s / 365) 3

variable {e c q s : Int}

theorem Cycles.yearOfEra_eq (h : Cycles e c q s) :
    (e - e / 1460 + e / 36524 - e / 146096) / 365 = 100 * c + 4 * q + yearOfCycle s := by
  obtain ⟨hc, hq, hs, hleap, he⟩ := h
  have h4 : e / 1460 = 25 * c + q + if 1460 ≤ 24 * c + q + s then 1 else 0 := by
    split <;> omega
  unfold yearOfCycle
  by_cases hend : e = 146096
  · obtain ⟨rfl, rfl, rfl⟩ : c = 3 ∧ q = 24 ∧ s = 1460 := by omega
    subst hend
    decide
  · have h100 : e / 36524 = c := by omega
    have h400 : e / 146096 = 0 := by omega
    rw [h4, h100, h400]
    split <;> omega

theorem Cycles.dayOfYear_eq (h : Cycles e c q s) {y : Int}
    (hy : y = 100 * c + 4 * q + yearOfCycle s) :
    0 ≤ y ∧ y < 400 ∧ e - (365 * y + y / 4 - y / 100) = s - 365 * yearOfCycle s := by
  obtain ⟨hc, hq, hs, -, he⟩ := h
  unfold yearOfCycle at hy ⊢
  have h4 : y / 4 = 25 * c + q := by omega
  have h100 : y / 100 = c := by omega
  omega

/-- The days of a year that begins in March, one more if it ends in a leap day. -/
theorem Cycles.dayOfYear_le (h : Cycles e c q s) :
    0 ≤ s - 365 * yearOfCycle s ∧ s - 365 * yearOfCycle s ≤ 365 ∧
      (s - 365 * yearOfCycle s = 365 → s = 1460) := by
  obtain ⟨-, -, hs, -, -⟩ := h
  unfold yearOfCycle
  omega

/-- The month of a day of a year that begins in March, and the day of the month. -/
theorem monthOf_dayOfYear {n : Int} (h0 : 0 ≤ n) (h1 : n ≤ 365) {m : Int}
    (hm : m = (5 * n + 2) / 153) :
    0 ≤ m ∧ m ≤ 11 ∧ 1 ≤ n - (153 * m + 2) / 5 + 1 ∧ n - (153 * m + 2) / 5 + 1 ≤
      if m = 11 then (if n = 365 then 29 else 28)
      else if m = 1 ∨ m = 3 ∨ m = 6 ∨ m = 8 then 30 else 31 := by
  have hlow : 0 ≤ m := by omega
  have hhigh : m ≤ 11 := by omega
  refine ⟨hlow, hhigh, ?_⟩
  interval_cases m <;> simp <;> omega

/-- A day number by the parts of its date. -/
theorem exists_dateOf (day : Int) : ∃ era c q s m : Int, Cycles (day + 719468 - era * 146097) c q s ∧
    m = (5 * (s - 365 * yearOfCycle s) + 2) / 153 ∧
    dateOf day = (100 * c + 4 * q + yearOfCycle s + era * 400 +
        (if (if m < 10 then m + 3 else m - 9) ≤ 2 then 1 else 0),
      (if m < 10 then m + 3 else m - 9).toNat,
      (s - 365 * yearOfCycle s - (153 * m + 2) / 5 + 1).toNat) := by
  have hrange : 0 ≤ day + 719468 - (day + 719468) / 146097 * 146097 ∧
      day + 719468 - (day + 719468) / 146097 * 146097 < 146097 := by omega
  obtain ⟨c, q, s, h⟩ := exists_cycles hrange.1 hrange.2
  refine ⟨(day + 719468) / 146097, c, q, s, _, h, rfl, ?_⟩
  have hyear := h.yearOfEra_eq
  have hday := (h.dayOfYear_eq rfl).2.2
  simp only [dateOf, Int.fdiv_eq_ediv_of_nonneg _ (show (0 : Int) ≤ 146097 by decide),
    Int.fdiv_eq_ediv_of_nonneg _ (show (0 : Int) ≤ 1460 by decide),
    Int.fdiv_eq_ediv_of_nonneg _ (show (0 : Int) ≤ 36524 by decide),
    Int.fdiv_eq_ediv_of_nonneg _ (show (0 : Int) ≤ 146096 by decide),
    Int.fdiv_eq_ediv_of_nonneg _ (show (0 : Int) ≤ 365 by decide),
    Int.fdiv_eq_ediv_of_nonneg _ (show (0 : Int) ≤ 4 by decide),
    Int.fdiv_eq_ediv_of_nonneg _ (show (0 : Int) ≤ 100 by decide),
    Int.fdiv_eq_ediv_of_nonneg _ (show (0 : Int) ≤ 153 by decide),
    Int.fdiv_eq_ediv_of_nonneg _ (show (0 : Int) ≤ 5 by decide), hyear, hday]

/-- The number of a date by its year in the era and its month, counted from March. -/
theorem dayNumber_eq {era y m d : Int} (hy : 0 ≤ y ∧ y < 400) (hm : 0 ≤ m ∧ m ≤ 11) (hd : 1 ≤ d) :
    dayNumber (y + era * 400 + if (if m < 10 then m + 3 else m - 9) ≤ 2 then 1 else 0)
        (if m < 10 then m + 3 else m - 9).toNat d.toNat =
      era * 146097 + (365 * y + y / 4 - y / 100) + ((153 * m + 2) / 5 + d - 1) - 719468 := by
  obtain ⟨month, hmonth⟩ : ∃ month : Nat, (if m < 10 then m + 3 else m - 9) = month :=
    ⟨(if m < 10 then m + 3 else m - 9).toNat, by split <;> omega⟩
  obtain ⟨n, rfl⟩ : ∃ n : Nat, d = n := ⟨d.toNat, by omega⟩
  have hyear : (if month ≤ 2 then
      (y + era * 400 + if (month : Int) ≤ 2 then 1 else 0) - 1
      else y + era * 400 + if (month : Int) ≤ 2 then 1 else 0) = y + era * 400 := by
    split <;> split <;> omega
  have hera : (y + era * 400) / 400 = era := by omega
  have hshifted : (if 2 < month then (month : Int) - 3 else (month : Int) + 9) = m := by
    split at hmonth <;> split <;> omega
  rw [hmonth, Int.toNat_natCast, Int.toNat_natCast]
  simp only [dayNumber, Int.fdiv_eq_ediv_of_nonneg _ (show (0 : Int) ≤ 400 by decide),
    Int.fdiv_eq_ediv_of_nonneg _ (show (0 : Int) ≤ 4 by decide),
    Int.fdiv_eq_ediv_of_nonneg _ (show (0 : Int) ≤ 100 by decide),
    Int.fdiv_eq_ediv_of_nonneg _ (show (0 : Int) ≤ 5 by decide), hyear, hera, hshifted]
  have hoffset : y + era * 400 - era * 400 = y := by omega
  rw [hoffset]
  omega

/-- A day number is that of its date. -/
theorem dayNumber_dateOf (day : Int) :
    dayNumber (dateOf day).1 (dateOf day).2.1 (dateOf day).2.2 = day := by
  obtain ⟨era, c, q, s, m, h, hm, hdate⟩ := exists_dateOf day
  obtain ⟨hn, hn', -⟩ := h.dayOfYear_le
  obtain ⟨hm0, hm11, hd, -⟩ := monthOf_dayOfYear hn hn' hm
  obtain ⟨hy0, hy400, hday⟩ := h.dayOfYear_eq rfl
  rw [hdate, dayNumber_eq ⟨hy0, hy400⟩ ⟨hm0, hm11⟩ hd]
  omega

theorem dateOf_inj {a b : Int} (h : dateOf a = dateOf b) : a = b := by
  rw [← dayNumber_dateOf a, h, dayNumber_dateOf]

/-- A year that begins in March and has a leap day ends in a leap year. -/
theorem Cycles.isLeap (h : Cycles e c q s) (hs : s = 1460) (era : Int) :
    ((100 * c + 4 * q + yearOfCycle s + era * 400 + 1) % 4 == 0 &&
      ((100 * c + 4 * q + yearOfCycle s + era * 400 + 1) % 100 != 0 ||
        (100 * c + 4 * q + yearOfCycle s + era * 400 + 1) % 400 == 0)) = true := by
  have hyear : yearOfCycle s = 3 := by
    rw [hs]
    rfl
  have hq := h.cycle
  have hc := h.century
  have hleap := h.leap hs
  rw [hyear]
  simp only [Bool.and_eq_true, Bool.or_eq_true, beq_iff_eq, bne_iff_ne]
  omega

/-- The date of a day is one that exists. -/
theorem dateOf_exists (day : Int) :
    1 ≤ (dateOf day).2.1 ∧ (dateOf day).2.1 ≤ 12 ∧ 1 ≤ (dateOf day).2.2 ∧
      (dateOf day).2.2 ≤ daysIn (dateOf day).1 (dateOf day).2.1 := by
  obtain ⟨era, c, q, s, m, h, hm, hdate⟩ := exists_dateOf day
  obtain ⟨hn, hn', hlast⟩ := h.dayOfYear_le
  obtain ⟨hm0, hm11, hd, hlen⟩ := monthOf_dayOfYear hn hn' hm
  rw [hdate]
  dsimp only
  refine ⟨?_, ?_, by omega, ?_⟩
  · split <;> omega
  · split <;> omega
  · by_cases hfebruary : m = 11
    · subst hfebruary
      simp only [if_true] at hlen
      have hmonth : (if (11 : Int) < 10 then (11 : Int) + 3 else 11 - 9).toNat = 2 := rfl
      have hbonus : (if (if (11 : Int) < 10 then (11 : Int) + 3 else 11 - 9) ≤ 2 then (1 : Int)
        else 0) = 1 := rfl
      simp only [hmonth, hbonus, daysIn, beq_self_eq_true, if_true]
      split at hlen
      · next hdays =>
        rw [if_pos (h.isLeap (hlast hdays) era)]
        omega
      · split <;> omega
    · rw [if_neg hfebruary] at hlen
      interval_cases m <;> simp [daysIn] at hlen ⊢ <;> omega

end Mend.Time
