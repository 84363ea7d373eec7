import ModelShelf.Time.Calendar

/-!
Dates and the numbers of their days. A day of a cycle of 400 years is taken apart into centuries,
groups of four years, single years and days; by these parts the year that is computed from a number
is the year of the day, and the date of a number has that number.
-/

namespace ModelShelf.Time

theorem daysInMonth_le (year : Int) (month : Nat) : daysInMonth year month ≤ 31 := by
  fun_cases daysInMonth year month <;> decide

theorem month_of_daysInMonth {year : Int} {month : Nat} (h : 0 < daysInMonth year month) :
    1 ≤ month ∧ month ≤ 12 := by
  revert h
  fun_cases daysInMonth year month <;> omega

/-- A day of a cycle, by its century, its group of four years, its year and its number there. A
century has 24 groups and one year more, unless it is the last one; a year has 365 days, the last
of its group one more. -/
structure DayOfCycle where
  century : Int
  group : Int
  single : Int
  day : Int
  century_mem : 0 ≤ century ∧ century ≤ 3
  group_mem : 0 ≤ group ∧ group ≤ 24
  single_mem : 0 ≤ single ∧ single ≤ 3
  day_mem : 0 ≤ day ∧ day ≤ 365
  leap : day = 365 → single = 3 ∧ (group = 24 → century = 3)

namespace DayOfCycle

def number (d : DayOfCycle) : Int := 36524 * d.century + 1461 * d.group + 365 * d.single + d.day

def year (d : DayOfCycle) : Int := 100 * d.century + 4 * d.group + d.single

theorem exists_number {n : Int} (hlow : 0 ≤ n) (hhigh : n < cycleDays) :
    ∃ d : DayOfCycle, d.number = n := by
  rw [cycleDays] at hhigh
  let century := min (n / 36524) 3
  let ofCentury := n - 36524 * century
  let group := ofCentury / 1461
  let ofGroup := ofCentury - 1461 * group
  let single := min (ofGroup / 365) 3
  refine ⟨⟨century, group, single, ofGroup - 365 * single, ?_, ?_, ?_, ?_, ?_⟩, ?_⟩
  · omega
  · omega
  · omega
  · omega
  · omega
  · simp only [number]
    omega

theorem year_mem (d : DayOfCycle) : 0 ≤ d.year ∧ d.year < 400 := by
  obtain ⟨century, group, single, day, hcentury, hgroup, hsingle, hday, leap⟩ := d
  simp only [year]
  omega

theorem number_sub_year (d : DayOfCycle) :
    d.number - (365 * d.year + d.year / 4 - d.year / 100) = d.day := by
  obtain ⟨century, group, single, day, hcentury, hgroup, hsingle, hday, leap⟩ := d
  simp only [year, number]
  omega

theorem yearOfCycle_number (d : DayOfCycle) :
    (d.number - d.number / 1460 + d.number / 36524 - d.number / 146096) / 365 = d.year := by
  obtain ⟨century, group, single, day, hcentury, hgroup, hsingle, hday, leap⟩ := d
  simp only [year, number]
  generalize hn : 36524 * century + 1461 * group + 365 * single + day = n
  have hgroups : n / 1460 =
      25 * century + group + (24 * century + group + 365 * single + day) / 1460 := by
    omega
  by_cases hlast : n = 146096
  · omega
  · have hcenturies : n / 36524 = century := by omega
    have hcycle : n / 146096 = 0 := by omega
    rw [hgroups, hcenturies, hcycle]
    by_cases hmore : 1460 ≤ 24 * century + group + 365 * single + day
    · have : (24 * century + group + 365 * single + day) / 1460 = 1 := by omega
      omega
    · have : (24 * century + group + 365 * single + day) / 1460 = 0 := by omega
      omega

end DayOfCycle

/-- The date of a day's number has that number. -/
theorem Date.toDays_ofDays (days : Int) : (Date.ofDays days).toDays = days := by
  have hcycle : ∃ cycle n : Int, (days + epochOffset).fdiv cycleDays = cycle ∧
      days + epochOffset - cycle * cycleDays = n ∧ 0 ≤ n ∧ n < cycleDays := by
    refine ⟨_, _, rfl, rfl, ?_⟩
    rw [Int.fdiv_eq_ediv_of_nonneg _ (by decide), cycleDays]
    omega
  obtain ⟨cycle, n, hcycle, hn, hlow, hhigh⟩ := hcycle
  obtain ⟨d, hd⟩ := DayOfCycle.exists_number hlow hhigh
  have hyear := d.yearOfCycle_number
  have hday := d.number_sub_year
  obtain ⟨hyearLow, hyearHigh⟩ := d.year_mem
  obtain ⟨hdayLow, hdayHigh⟩ := d.day_mem
  rw [hd] at hyear hday
  simp only [Date.ofDays, hcycle, hn, hyear, hday]
  generalize d.year = year, d.day = day at *
  obtain ⟨month, hmonth⟩ : ∃ month, (5 * day + 2) / 153 = month := ⟨_, rfl⟩
  have hnumber : ((day - (153 * month + 2) / 5 + 1).toNat : Int) =
      day - (153 * month + 2) / 5 + 1 := by omega
  have hcycle' : (year + cycle * 400).fdiv 400 = cycle := by
    rw [Int.fdiv_eq_ediv_of_nonneg _ (by decide)]
    omega
  simp only [Date.toDays, hmonth, hnumber]
  by_cases hlate : month < 10
  · have hindex : ((month + 3).toNat : Int) - 3 = month := by omega
    have hnew : ¬ (month + 3).toNat ≤ 2 := by omega
    simp only [hlate, hnew, ↓reduceIte, hindex, Int.add_sub_cancel, hcycle']
    omega
  · have hindex : ((month - 9).toNat : Int) + 9 = month := by omega
    have hnew : (month - 9).toNat ≤ 2 := by omega
    simp only [hlate, hnew, ↓reduceIte, hindex, Int.add_sub_cancel, hcycle']
    omega

end ModelShelf.Time
