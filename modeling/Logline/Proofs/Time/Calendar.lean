import Mathlib.Tactic.SplitIfs
import Logline.Time.Calendar
/-!
Days and dates.  The date of a day exists in the calendar (`isValid_ofDays`),
and its day is the one it comes from (`toDays_ofDays`).  A day of the cycle of
400 years is `c` centuries, `q` groups of four years, `s` years and `r` days
into the cycle; only the last year of a group has a day 365, and only the last
century has one in its last group.
-/
namespace Logline.Date

theorem exists_position {d : Nat} (h : d < cycle) :
    ∃ c q s r, d = 36524 * c + (1461 * q + 365 * s + r) ∧ c ≤ 3 ∧ q ≤ 24 ∧
      s ≤ 3 ∧ r ≤ 365 ∧
      (r = 365 → s = 3 ∧ (q = 24 → c = 3)) := by
  rw [cycle] at h
  obtain ⟨c, k, hd, hc, hk⟩ : ∃ c k, d = 36524 * c + k ∧ c ≤ 3 ∧
      (k < 36524 ∨ k = 36524 ∧ c = 3) :=
    ⟨min (d / 36524) 3, d - 36524 * min (d / 36524) 3, by omega,
      by omega, by omega⟩
  obtain ⟨q, j, hq, hj⟩ : ∃ q j, k = 1461 * q + j ∧ j < 1461 :=
    ⟨k / 1461, k % 1461, by omega, by omega⟩
  exact ⟨c, q, min (j / 365) 3, j - 365 * min (j / 365) 3, by omega, hc,
    by omega, by omega, by omega, by omega⟩

theorem daysBefore_position (c : Nat) {q s : Nat} (hq : q ≤ 24) (hs : s ≤ 3) :
    daysBefore (100 * c + 4 * q + s) = 36524 * c + (1461 * q + 365 * s) := by
  rw [daysBefore]
  omega

/-- Leaving out the leap days leaves years of 365 days. -/
theorem days_of_years (c q s : Nat) {r e : Nat} (last : Nat) (he : e ≤ r) :
    36524 * c + (1461 * q + 365 * s + r) - (25 * c + q + e) +
      (c + last) - last =
      365 * (100 * c + 4 * q + s) + (r - e) := by
  omega

/-- The days so far, divided by 1460, are the leap days before this one as if
every fourth year had one; centuries have one less, and the cycle one more than
its centuries. -/
theorem yearOfCycle_position {c q s r : Nat} (hc : c ≤ 3) (hq : q ≤ 24)
    (hs : s ≤ 3) (hr : r ≤ 365) (hleap : r = 365 → s = 3 ∧ (q = 24 → c = 3)) :
    yearOfCycle (36524 * c + (1461 * q + 365 * s + r)) =
      100 * c + 4 * q + s := by
  obtain ⟨e, hfour, he, hone⟩ : ∃ e,
      (36524 * c + (1461 * q + 365 * s + r)) / 1460 = 25 * c + q + e ∧
        e ≤ r ∧ r - e ≤ 364 := by
    refine ⟨(24 * c + q + 365 * s + r) / 1460, ?_, by omega, by omega⟩
    have hsplit : 36524 * c + (1461 * q + 365 * s + r) =
        1460 * (25 * c + q) + (24 * c + q + 365 * s + r) := by omega
    rw [hsplit, Nat.mul_add_div (by decide)]
  have hcentury : (36524 * c + (1461 * q + 365 * s + r)) / 36524 =
      c + (36524 * c + (1461 * q + 365 * s + r)) / 146096 := by
    obtain ⟨k, hk, hbound, hlast⟩ : ∃ k, 1461 * q + 365 * s + r = k ∧
      k ≤ 36524 ∧
        (k = 36524 → c = 3) := ⟨_, rfl, by omega, by omega⟩
    rw [hk]
    clear hk
    omega
  rw [yearOfCycle, hfour, hcentury, days_of_years c q s _ he,
    Nat.mul_add_div (by decide), Nat.div_eq_of_lt (Nat.lt_succ_of_le hone),
    Nat.add_zero]

/-- The year that holds a day of the cycle, and a day 365 only if the February
at its end has a leap day. -/
theorem yearOfCycle_spec {d : Nat} (h : d < cycle) :
    yearOfCycle d < 400 ∧ daysBefore (yearOfCycle d) ≤ d ∧
      d - daysBefore (yearOfCycle d) ≤ 365 ∧
      (d - daysBefore (yearOfCycle d) = 365 →
        ∀ n : Int, isLeapYear (n * 400 + yearOfCycle d + 1) = true) := by
  obtain ⟨c, q, s, r, rfl, hc, hq, hs, hr, hleap⟩ := exists_position h
  rw [yearOfCycle_position hc hq hs hr hleap, daysBefore_position c hq hs]
  refine ⟨by omega, by omega, by omega, fun hlast n => ?_⟩
  obtain ⟨rfl, hcentury⟩ := hleap (by omega)
  simp only [isLeapYear, Bool.and_eq_true, Bool.or_eq_true,
    beq_iff_eq, bne_iff_ne]
  omega

/-- The calendar month of a month that is counted from March. -/
def calendarMonth (month : Nat) : Nat :=
  if 10 ≤ month then month - 9 else month + 3

/-- The months of a year that begins in March, day by day. -/
theorem month_spec : ∀ d < 366, (5 * d + 2) / 153 ≤ 11 ∧
    daysBeforeMonth ((5 * d + 2) / 153) ≤ d ∧
    (calendarMonth ((5 * d + 2) / 153) = 2 →
      d - daysBeforeMonth ((5 * d + 2) / 153) + 1 ≤
        if d = 365 then 29 else 28) ∧
    (calendarMonth ((5 * d + 2) / 153) ≠ 2 →
      d - daysBeforeMonth ((5 * d + 2) / 153) + 1 ≤
        daysInMonth 0 (calendarMonth ((5 * d + 2) / 153))) := by
  decide +kernel

/-- The parts that a date is put together from. -/
theorem exists_parts (days : Int) :
    ∃ (n : Int) (year d : Nat), year < 400 ∧ d ≤ 365 ∧
      (d = 365 → isLeapYear (n * 400 + year + 1) = true) ∧
      days = n * cycle + daysBefore year + d - epochShift ∧
      ofDays days =
        ⟨n * 400 + year + (if 10 ≤ (5 * d + 2) / 153 then 1 else 0),
          calendarMonth ((5 * d + 2) / 153),
          d - daysBeforeMonth ((5 * d + 2) / 153) + 1⟩ := by
  have hcycle : (0 : Int) < cycle := by decide
  have hnonneg := Int.emod_nonneg (days + epochShift) (Int.ne_of_gt hcycle)
  have hlt := Int.emod_lt_of_pos (days + epochShift) hcycle
  have hsum := Int.mul_ediv_add_emod (days + epochShift) cycle
  obtain ⟨dayOfCycle, hday⟩ := Int.eq_ofNat_of_zero_le hnonneg
  obtain ⟨hyear, hbefore, hd, hleap⟩ :=
    yearOfCycle_spec (d := dayOfCycle) (by omega)
  refine ⟨(days + epochShift) / cycle, yearOfCycle dayOfCycle,
    dayOfCycle - daysBefore (yearOfCycle dayOfCycle), hyear, hd,
    fun h => hleap h _, ?_, ?_⟩
  · rw [Int.mul_comm] at hsum
    omega
  · rw [ofDays, hday, Int.toNat_natCast]
    rfl

theorem isValid_ofDays (days : Int) : (ofDays days).isValid = true := by
  obtain ⟨n, year, d, -, hd, hleap, -, hdate⟩ := exists_parts days
  obtain ⟨hmonth, -, hfebruary, hother⟩ := month_spec d (Nat.lt_succ_of_le hd)
  rw [hdate]
  generalize hm : (5 * d + 2) / 153 = m at hmonth hfebruary hother ⊢
  simp only [isValid, Bool.and_eq_true, decide_eq_true_eq]
  refine ⟨⟨⟨?_, ?_⟩, Nat.le_add_left 1 _⟩, ?_⟩
  · rw [calendarMonth]
    split_ifs <;> omega
  · rw [calendarMonth]
    split_ifs <;> omega
  · by_cases hcalendar : calendarMonth m = 2
    · have hlate : 10 ≤ m := by
        rw [calendarMonth] at hcalendar
        split_ifs at hcalendar with h
        · exact h
        · omega
      have hday := hfebruary hcalendar
      rw [hcalendar, if_pos hlate, daysInMonth, if_pos rfl]
      split_ifs at hday with hlast
      · rw [if_pos (hleap hlast)]
        exact hday
      · split_ifs <;> omega
    · have hday := hother hcalendar
      rw [daysInMonth, if_neg hcalendar] at hday ⊢
      exact hday

theorem toDays_ofDays (days : Int) : (ofDays days).toDays = days := by
  obtain ⟨n, year, d, hyear, hd, -, hdays, hdate⟩ := exists_parts days
  obtain ⟨hmonth, hbefore, -, -⟩ := month_spec d (Nat.lt_succ_of_le hd)
  rw [hdate, hdays]
  generalize hm : (5 * d + 2) / 153 = m at hmonth hbefore ⊢
  by_cases hlate : 10 ≤ m
  · have hcalendar : calendarMonth m = m - 9 := if_pos hlate
    have hmarch : m - 9 + 9 = m := by omega
    have hcycles : (n * 400 + year + 1 - 1) / 400 = n := by omega
    have hrest : ((n * 400 + year + 1 - 1) % 400).toNat = year := by omega
    rw [toDays]
    simp only [hcalendar, if_pos hlate, if_pos (show m - 9 ≤ 2 by omega),
      hmarch, hcycles, hrest]
    omega
  · have hcalendar : calendarMonth m = m + 3 := if_neg hlate
    have hcycles : (n * 400 + year + 0) / 400 = n := by omega
    have hrest : ((n * 400 + year + 0) % 400).toNat = year := by omega
    rw [toDays]
    simp only [hcalendar, if_neg hlate, if_neg (show ¬ m + 3 ≤ 2 by omega),
      Nat.add_sub_cancel, hcycles, hrest]
    omega

end Logline.Date
