import Mathlib.Algebra.BigOperators.Intervals
import Mathlib.Tactic.IntervalCases

/-!
# Dates of times

`tz_time` of `runtime/tz-time.c` for a time and the offset of a zone, without leap seconds.  A day
is too long for the variable that holds the time of day where `unsigned` has 16 bits.
-/

namespace Uos.TimeZone

/-- `year_isleap` -/
def yearIsleap (year : Nat) : Bool :=
  year &&& 3 == 0

/-- `get_mday` where the month is inside of the table. -/
def getMday (year mon : Nat) : Option Nat :=
  [31, 28, 31, 30, 31, 30, 31, 31, 30, 31, 30, 31][mon]?.map fun days =>
    if days = 28 && yearIsleap year then days + 1 else days

/-- What is left of the time, and `parts_t` without the leap second. -/
structure Parts where
  t : Int
  year : Nat
  weekday : Nat

/-- The loop of `time2year` that leaves the times before 2000. -/
def Parts.back (p : Parts) : Parts :=
  if p.t < 0 then back { p with t := p.t + 883612800, year := p.year - 28 } else p
termination_by (-p.t).toNat
decreasing_by omega

/-- A loop of `time2year` that leaves out periods of years. -/
def Parts.leave (period : Nat) (years days : Nat) (p : Parts) : Parts :=
  if period ≤ p.t ∧ 0 < period then
    leave period years days ⟨p.t - period, p.year + years, p.weekday + days⟩
  else p
termination_by p.t.toNat
decreasing_by omega

/-- The last loop of `time2year`. -/
def Parts.single (p : Parts) : Parts :=
  if p.t < (if yearIsleap p.year then 31622400 else 31536000) then p
  else if yearIsleap p.year then single ⟨p.t - 31622400, p.year + 1, p.weekday + 2⟩
  else single ⟨p.t - 31536000, p.year + 1, p.weekday + 1⟩
termination_by p.t.toNat
decreasing_by
  · simp_all
  · simp_all

/-- `time2year` -/
def time2year (t : Int) : Parts :=
  ((Parts.mk t 2000 6).back.leave 883612800 28 0 |>.leave 126230400 4 5).single

theorem getMday_inside {year mon d : Nat} (days : getMday year mon = some d) : mon < 12 := by
  by_contra outside
  rw [getMday, List.getElem?_eq_none (Nat.not_lt.mp outside)] at days
  contradiction

/-- The loop of `tz_time` over the months. -/
def monthLoop (year v mon : Nat) : Option (Nat × Nat) :=
  if v = 0 then some (mon, v)
  else
    match days : getMday year mon with
    | none => none
    | some d => if v < d then some (mon, v) else monthLoop year (v - d) (mon + 1)
termination_by 12 - mon
decreasing_by
  have inside := getMday_inside days
  omega

/-- The date and time of `tz_time_t`. -/
structure TzTime where
  year : Nat
  yday : Nat
  hour : Nat
  min : Nat
  sec : Nat
  wday : Nat
  mon : Nat
  mday : Nat

/-- `tz_time` with an offset, which it adds, and with the width of `unsigned`. -/
def tzTime (bits : Nat) (t gmtOffset : Int) : Option TzTime :=
  let p := time2year (t + gmtOffset)
  let yday := (p.t / 86400).toNat
  let v := (p.t % 86400).toNat % 2 ^ bits
  (monthLoop p.year yday 0).map fun (mon, rest) =>
    { year := p.year, yday, hour := v / 3600, min := v % 3600 / 60, sec := v % 3600 % 60
      wday := (p.weekday + yday) % 7, mon, mday := rest + 1 }

/-- The leap years of the Gregorian calendar. -/
def Leap (year : Nat) : Prop :=
  4 ∣ year ∧ (100 ∣ year → 400 ∣ year)

instance (year : Nat) : Decidable (Leap year) :=
  inferInstanceAs (Decidable (_ ∧ _))

def monthLength (year mon : Nat) : Nat :=
  if mon = 1 then if Leap year then 29 else 28
  else if mon ∈ [3, 5, 8, 10] then 30 else 31

def monthStart (year mon : Nat) : Nat :=
  ∑ m ∈ Finset.range mon, monthLength year m

def yearStart (year : Nat) : Nat :=
  ∑ y ∈ Finset.range year, monthStart y 12

/-- The date and time are `t` seconds after the start of 2000, which was a Saturday. -/
structure TzTime.Exact (t : Int) (l : TzTime) : Prop where
  sec : l.sec < 60
  min : l.min < 60
  hour : l.hour < 24
  mon : l.mon < 12
  mday : 1 ≤ l.mday ∧ l.mday ≤ monthLength l.year l.mon
  years : 1931 ≤ l.year ∧ l.year ≤ 2069
  yday : l.yday + 1 = monthStart l.year l.mon + l.mday
  wday : (l.wday : Int) = (yearStart l.year + l.yday - yearStart 2000 + 6) % 7
  time : 86400 * ((yearStart l.year : Int) + l.yday - yearStart 2000) +
    (3600 * l.hour + 60 * l.min + l.sec) = t

theorem monthStart_year (year : Nat) : monthStart year 12 = if Leap year then 366 else 365 := by
  simp only [monthStart, Finset.sum_range_succ, monthLength]
  split <;> rfl

theorem yearStart_succ (year : Nat) :
    yearStart (year + 1) = yearStart year + if Leap year then 366 else 365 := by
  rw [yearStart, Finset.sum_range_succ, monthStart_year, yearStart]

theorem leap_iff {year : Nat} (after : 1900 < year) (before : year < 2100) :
    yearIsleap year = true ↔ Leap year := by
  rw [yearIsleap, beq_iff_eq, Nat.and_two_pow_sub_one_eq_mod year 2, Leap]
  omega

theorem getMday_eq {year mon : Nat} (after : 1900 < year) (before : year < 2100)
    (inside : mon < 12) : getMday year mon = some (monthLength year mon) := by
  have leap := leap_iff after before
  interval_cases mon <;> simp [getMday, monthLength, leap]

theorem yearStart_leap {year : Nat} (after : 1900 < year) (before : year < 2097)
    (divides : 4 ∣ year) :
    yearStart (year + 1) = yearStart year + 366 ∧ yearStart (year + 3) = yearStart year + 1096 ∧
      yearStart (year + 4) = yearStart year + 1461 := by
  have years : Leap year ∧ ¬Leap (year + 1) ∧ ¬Leap (year + 2) ∧ ¬Leap (year + 3) := by
    simp only [Leap]
    omega
  obtain ⟨first, second, third, fourth⟩ := years
  rw [yearStart_succ (year + 3), yearStart_succ (year + 2), yearStart_succ (year + 1),
    yearStart_succ year, if_pos first, if_neg second, if_neg third, if_neg fourth]
  exact ⟨rfl, rfl, rfl⟩

theorem yearStart_four {k : Nat} (few : k ≤ 48) :
    yearStart (1904 + 4 * k) = yearStart 1904 + 1461 * k := by
  obtain ⟨year, start⟩ : ∃ year, year = 1904 := ⟨_, rfl⟩
  rw [← start]
  induction k with
  | zero => rfl
  | succ k ih =>
    have next : yearStart (year + 4 * k + 4) = yearStart (year + 4 * k) + 1461 :=
      (yearStart_leap (by omega) (by omega) (by omega)).2.2
    rw [Nat.mul_succ, ← Nat.add_assoc, next, ih (by omega), Nat.mul_succ, Nat.add_assoc]

theorem leave_eq {period : Nat} (years days : Nat) (positive : 0 < period) {p : Parts}
    (start : 0 ≤ p.t) : p.leave period years days =
      ⟨p.t % period, p.year + years * (p.t / period).toNat,
        p.weekday + days * (p.t / period).toNat⟩ := by
  fun_induction Parts.leave period years days p with
  | case1 p again ih =>
    have quotient : (p.t / period).toNat = ((p.t - period) / period).toNat + 1 := by
      have less := Int.sub_ediv_of_dvd p.t (dvd_refl (period : Int))
      rw [Int.ediv_self (by omega)] at less
      have one : 1 ≤ p.t / period := (Int.le_ediv_iff_mul_le (by omega)).mpr (by omega)
      omega
    rw [ih (by dsimp only; omega), quotient]
    simp only [Int.sub_emod_right, Nat.mul_succ]
    congr 1 <;> omega
  | case2 p done =>
    have low : p.t < period := by omega
    rw [Int.ediv_eq_zero_of_lt start low, Int.emod_eq_of_lt start low]
    simp

theorem yearStart_mono : Monotone yearStart :=
  monotone_nat_of_le_succ fun year => by
    rw [yearStart_succ]
    omega

theorem year_inside {last year : Nat} {t : Int} (near : last < 2100) (after : 1900 < year)
    (start : 0 ≤ t) (inside : 86400 * (yearStart year : Int) + t < 86400 * yearStart last) :
    year < last ∧
      yearStart (year + 1) = yearStart year + if yearIsleap year then 366 else 365 := by
  have before : year < last := by
    by_contra beyond
    have more := yearStart_mono (Nat.not_lt.mp beyond)
    omega
  refine ⟨before, (yearStart_succ year).trans ?_⟩
  simp only [leap_iff after (before.trans near)]

theorem single_spec {last : Nat} (near : last < 2100) (p : Parts) (after : 1900 < p.year)
    (start : 0 ≤ p.t) (inside : 86400 * (yearStart p.year : Int) + p.t < 86400 * yearStart last) :
    let q := p.single
    0 ≤ q.t ∧ q.t < 86400 * (yearStart (q.year + 1) - yearStart q.year : Int) ∧
      1900 < q.year ∧ q.year < last ∧
      86400 * (yearStart q.year : Int) + q.t = 86400 * yearStart p.year + p.t ∧
      ((q.weekday : Int) - yearStart q.year) % 7 = (p.weekday - yearStart p.year) % 7 := by
  fun_induction Parts.single p with
  | case1 p done =>
    obtain ⟨before, next⟩ := year_inside near after start inside
    split_ifs at done next <;> refine ⟨start, ?_, after, before, rfl, rfl⟩ <;> omega
  | case2 p more yes ih =>
    obtain ⟨before, next⟩ := year_inside near after start inside
    rw [dif_pos yes] at more
    rw [if_pos yes] at next
    dsimp only at ih ⊢
    obtain ⟨start', inside', after', before', time, weekday⟩ :=
      ih (by omega) (by omega) (by omega)
    exact ⟨start', inside', after', before', by omega, by omega⟩
  | case3 p more no ih =>
    obtain ⟨before, next⟩ := year_inside near after start inside
    rw [dif_neg no] at more
    rw [if_neg no] at next
    dsimp only at ih ⊢
    obtain ⟨start', inside', after', before', time, weekday⟩ :=
      ih (by omega) (by omega) (by omega)
    exact ⟨start', inside', after', before', by omega, by omega⟩

theorem back_eq {t : Int} (low : -2 ^ 31 ≤ t) :
    ∃ i : Nat, i ≤ 3 ∧ Parts.back ⟨t, 2000, 6⟩ = ⟨t + 883612800 * i, 2000 - 28 * i, 6⟩ ∧
      0 ≤ t + 883612800 * i ∧ (i = 0 ∨ t + 883612800 * i < 883612800) := by
  have stop (p : Parts) (done : 0 ≤ p.t) : p.back = p := by
    rw [Parts.back, if_neg (by omega)]
  have go (p : Parts) (early : p.t < 0) :
      p.back = Parts.back { p with t := p.t + 883612800, year := p.year - 28 } := by
    rw [Parts.back, if_pos early]
  rcases lt_or_ge t 0 with first | none
  · rcases lt_or_ge (t + 883612800) 0 with second | one
    · rcases lt_or_ge (t + 883612800 + 883612800) 0 with third | two
      · refine ⟨3, le_rfl, ?_, by omega, by omega⟩
        rw [go _ first, go _ second, go _ third, stop _ (by dsimp only; omega)]
        simp [Int.add_assoc]
      · refine ⟨2, by decide, ?_, by omega, by omega⟩
        rw [go _ first, go _ second, stop _ two]
        simp [Int.add_assoc]
    · exact ⟨1, by decide, by rw [go _ first, stop _ one]; rfl, by omega, by omega⟩
  · exact ⟨0, by decide, by rw [stop _ none]; simp, by omega, .inl rfl⟩

/-- `time2year` finds the start of the year of a time, and the day of the week there. -/
theorem time2year_spec {t : Int} (low : -2 ^ 31 ≤ t) (high : t < 2 ^ 31) :
    let p := time2year t
    0 ≤ p.t ∧ p.t < 86400 * (yearStart (p.year + 1) - yearStart p.year : Int) ∧
      1931 ≤ p.year ∧ p.year < 2069 ∧
      86400 * ((yearStart p.year : Int) - yearStart 2000) + p.t = t ∧
      ((p.weekday : Int) - yearStart p.year) % 7 = (6 - yearStart 2000) % 7 := by
  obtain ⟨i, few, back, start, once⟩ := back_eq low
  have start' : 0 ≤ (t + 883612800 * i) % 883612800 := Int.emod_nonneg _ (by decide)
  generalize quotient : ((t + 883612800 * (i : Int)) / 883612800).toNat = q
  generalize quotient' : ((t + 883612800 * (i : Int)) % 883612800 / 126230400).toNat = r
  have parts : ((Parts.mk t 2000 6).back.leave 883612800 28 0).leave 126230400 4 5 =
      ⟨(t + 883612800 * i) % 883612800 % 126230400, 2000 - 28 * i + 28 * q + 4 * r, 6 + 5 * r⟩ := by
    rw [back, leave_eq 28 0 (by decide) start, leave_eq 4 5 (by decide) start']
    simp only [Nat.cast_ofNat, quotient, quotient', Nat.zero_mul, Nat.add_zero]
  have few' : (i = 0 ∧ q ≤ 2) ∨ q = 0 := by
    rcases once with rfl | once
    · left
      omega
    · rw [Int.ediv_eq_zero_of_lt start once] at quotient
      exact .inr quotient.symm
  have few'' : r ≤ 6 := by
    have small := Int.emod_lt_of_pos (t + 883612800 * (i : Int)) (by decide : (0 : Int) < 883612800)
    have less := Int.ediv_lt_of_lt_mul (by decide) (show _ < 7 * (126230400 : Int) from small)
    omega
  have years : 2000 - 28 * i + 28 * q + 4 * r = 1904 + 4 * (24 - 7 * i + 7 * q + r) := by omega
  have days := @yearStart_four (24 - 7 * i + 7 * q + r) (by omega)
  have at2000 : yearStart 2000 = yearStart 1904 + 1461 * 24 := @yearStart_four 24 (by decide)
  have at2068 : yearStart 2068 = yearStart 1904 + 1461 * 41 := @yearStart_four 41 (by decide)
  have at1928 : yearStart 1928 = yearStart 1904 + 1461 * 6 := @yearStart_four 6 (by decide)
  have last : yearStart 2069 = yearStart 2068 + 366 :=
    (yearStart_leap (by decide) (by decide) (by decide)).1
  have first : yearStart 1931 = yearStart 1928 + 1096 :=
    (@yearStart_leap 1928 (by decide) (by decide) (by decide)).2.1
  generalize yearStart 2000 = start2000 at *
  have single := @single_spec 2069 (by decide)
    ⟨(t + 883612800 * i) % 883612800 % 126230400, 2000 - 28 * i + 28 * q + 4 * r, 6 + 5 * r⟩
  rw [years] at single
  dsimp only at single
  rw [time2year, parts, years]
  obtain ⟨begins, ends, -, before, time, weekday⟩ :=
    single (by omega) (Int.emod_nonneg _ (by decide)) (by omega)
  generalize Parts.single _ = p at begins ends before time weekday ⊢
  have since : 1931 ≤ p.year := by
    by_contra early
    have less := yearStart_mono (show p.year + 1 ≤ 1931 by omega)
    omega
  exact ⟨begins, ends, since, before, by omega, by omega⟩

theorem monthStart_mono (year : Nat) : Monotone (monthStart year) :=
  monotone_nat_of_le_succ fun mon => by
    rw [monthStart, monthStart, Finset.sum_range_succ]
    exact Nat.le_add_right ..

theorem monthLoop_spec {year yday v mon : Nat} (after : 1900 < year) (before : year < 2100)
    (low : yday < monthStart year 12) (start : monthStart year mon + v = yday) :
    ∃ mon' v', monthLoop year v mon = some (mon', v') ∧ mon' < 12 ∧
      v' < monthLength year mon' ∧ monthStart year mon' + v' = yday := by
  have inside (mon v : Nat) (start : monthStart year mon + v = yday) : mon < 12 := by
    by_contra beyond
    have more := monthStart_mono year (Nat.not_lt.mp beyond)
    omega
  fun_induction monthLoop year v mon with
  | case1 mon =>
    refine ⟨mon, 0, rfl, inside mon 0 start, ?_, start⟩
    unfold monthLength
    split_ifs <;> decide
  | case2 v mon some none =>
    rw [getMday_eq after before (inside mon v start)] at none
    contradiction
  | case3 v mon some d days less =>
    rw [getMday_eq after before (inside mon v start)] at days
    cases days
    exact ⟨mon, v, rfl, inside mon v start, less, start⟩
  | case4 v mon some d days more ih =>
    rw [getMday_eq after before (inside mon v start)] at days
    cases days
    refine ih ?_
    rw [monthStart, Finset.sum_range_succ, ← monthStart]
    omega

/-- The date and time are exact if and only if the time of day fits into `unsigned`. -/
theorem tzTime_exact_iff (bits : Nat) {t gmtOffset : Int} (low : -2 ^ 31 ≤ t + gmtOffset)
    (high : t + gmtOffset < 2 ^ 31) :
    (∃ l, tzTime bits t gmtOffset = some l ∧ l.Exact (t + gmtOffset)) ↔
      (t + gmtOffset) % 86400 < 2 ^ bits := by
  rw [tzTime]
  generalize t + gmtOffset = t at *
  obtain ⟨start, inside, since, before, time, weekday⟩ := time2year_spec low high
  generalize time2year t = p at *
  have year : p.t / 86400 < monthStart p.year 12 := by
    rw [yearStart_succ, ← monthStart_year] at inside
    omega
  have rest : p.t % 86400 = t % 86400 := by omega
  obtain ⟨mon, v, loop, mon_lt, v_lt, yday⟩ := @monthLoop_spec p.year (p.t / 86400).toNat _ 0
    (by omega) (by omega) (by omega) (Nat.zero_add _)
  simp only [loop, Option.map_some, Option.some.injEq, exists_eq_left']
  generalize left : (p.t % 86400).toNat = seconds
  have bound : t % 86400 < 2 ^ bits ↔ seconds < 2 ^ bits := by
    rw [← rest, ← left, Int.toNat_lt_of_ne_zero (Nat.two_pow_pos bits).ne', Nat.cast_pow]
    rfl
  rw [bound]
  constructor
  · intro exact
    have named := exact.time
    have kept := Nat.mod_lt seconds (Nat.two_pow_pos bits)
    dsimp only at named
    generalize seconds % 2 ^ bits = clock at named kept
    omega
  · intro short
    rw [Nat.mod_eq_of_lt short]
    refine ⟨?_, ?_, ?_, mon_lt, ⟨?_, ?_⟩, ⟨since, by dsimp only; omega⟩, ?_, ?_, ?_⟩ <;>
      dsimp only <;> omega

theorem tzTime_exact_midnight :
    (∃ l, tzTime 32 0 0 = some l ∧ l.Exact (0 + 0)) ↔ (0 + 0 : Int) % 86400 < 2 ^ 32 :=
  tzTime_exact_iff 32 (by decide) (by decide)

theorem evening_not_exact : ¬∀ bits : Nat, bits = 16 ∨ bits = 32 → ∀ t gmtOffset : Int,
    -2 ^ 31 ≤ t + gmtOffset → t + gmtOffset < 2 ^ 31 →
      ∃ l, tzTime bits t gmtOffset = some l ∧ l.Exact (t + gmtOffset) := by
  intro exact
  obtain ⟨l, run, named⟩ := exact 16 (.inl rfl) 65536 0 (by decide) (by decide)
  have first : tzTime 16 65536 0 = some ⟨2000, 0, 0, 0, 0, 6, 0, 1⟩ := by
    simp [tzTime, time2year, Parts.back, Parts.leave, Parts.single, monthLoop, yearIsleap]
  cases first.symm.trans run
  have time := named.time
  dsimp only at time
  omega

end Uos.TimeZone
