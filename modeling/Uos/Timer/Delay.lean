import Mathlib.Order.Bounds.Basic
import Uos.Timer.Clock

/-!
# Delays

`timer_delay` and `timer_passed` of `timer/timer.c`: both compare the time that is over, taken from
a clock that starts again at midnight, with a number of milliseconds.
-/

namespace Uos

open BitVec

/-- `interval_greater_or_equal`: both arguments are signed there. -/
def intervalGreaterOrEqual (interval msec : ULong) : Bool :=
  let interval :=
    if interval.slt 0 then interval + .ofNat 32 msecPerDay
    else if .ofNat 32 msecPerDay ≤ interval then interval - .ofNat 32 msecPerDay
    else interval
  msec.sle interval

/-- The loop of `timer_delay`, and the number of ticks that the task waits for there. -/
def delayLoop (t0 msec : ULong) : Nat → Timer → Option Nat
  | 0, _ => none
  | fuel + 1, t =>
    if intervalGreaterOrEqual (t.milliseconds - t0) msec then some 0
    else (delayLoop t0 msec fuel (timerUpdate t).2).map (· + 1)

/-- `timer_delay` -/
def timerDelay (t : Timer) (msec : ULong) (fuel : Nat) : Option Nat :=
  delayLoop t.milliseconds msec fuel t

/-- `timer_passed` -/
def timerPassed (t : Timer) (t0 msec : ULong) : Bool :=
  intervalGreaterOrEqual (t.milliseconds - t0) msec

def ticksOf (tick msec : Nat) : Set Nat :=
  {n | msec ≤ n * tick}

/-- The delay ends at the first tick at which the time is over. -/
def DelayExact (t : Timer) (msec : ULong) : Prop :=
  ∀ n, (∃ fuel, timerDelay t msec fuel = some n) ↔
    IsLeast (ticksOf t.msec_per_tick.toNat msec.toNat) n

/-- The clock runs so far that the delay can end at the tick at which it is due.  Ticks of more than
a day leave the clock behind by a day each. -/
def ReadsDue (start tick msec due : Nat) : Prop :=
  if tick ≤ msecPerDay then due * tick < msecPerDay
  else
    let read := due * (tick - msecPerDay)
    read < 2 ^ 31 ∧ msec ≤ (if read < msecPerDay then read else read - msecPerDay) ∨
      2 ^ 32 ≤ start + tick ∧ 0 < msec ∧ msec + 2 ^ 32 ≤ tick + msecPerDay

/-- The number is not negative, and the clock runs so far. -/
def DelayEnds (start tick msec : Nat) : Prop :=
  msec < 2 ^ 31 ∧ ∀ due, IsLeast (ticksOf tick msec) due → ReadsDue start tick msec due

def reachedAt (t : Timer) (msec : ULong) : Set Nat :=
  {n | timerPassed (ticked timerUpdate t n) t.milliseconds msec}

theorem ticked_succ_of_first (t : Timer) (n : Nat) :
    ticked timerUpdate t (n + 1) = ticked timerUpdate (timerUpdate t).2 n :=
  Function.iterate_succ_apply ..

theorem delayLoop_eq_some (t0 msec : ULong) (fuel : Nat) (t : Timer) (n : Nat) :
    delayLoop t0 msec fuel t = some n ↔
      n < fuel ∧ IsLeast {k | timerPassed (ticked timerUpdate t k) t0 msec} n := by
  induction fuel generalizing t n with
  | zero => simp [delayLoop]
  | succ fuel ih =>
    have first : timerPassed (ticked timerUpdate t 0) t0 msec =
        intervalGreaterOrEqual (t.milliseconds - t0) msec := rfl
    rw [delayLoop]
    split_ifs with reached
    · rw [Option.some_inj]
      constructor
      · rintro rfl
        exact ⟨Nat.succ_pos _, first.trans reached, fun k _ => Nat.zero_le k⟩
      · rintro ⟨-, -, least⟩
        exact (Nat.le_zero.mp (least (first.trans reached))).symm
    · rw [Option.map_eq_some_iff]
      have later : ∀ k, timerPassed (ticked timerUpdate t k) t0 msec →
          ∃ j, k = j + 1 ∧ timerPassed (ticked timerUpdate (timerUpdate t).2 j) t0 msec := by
        intro k passed
        cases k with
        | zero => exact absurd (first.symm.trans passed) reached
        | succ j => exact ⟨j, rfl, by rwa [ticked_succ_of_first] at passed⟩
      constructor
      · rintro ⟨m, ends, rfl⟩
        obtain ⟨below, passed, least⟩ := (ih _ _).mp ends
        refine ⟨Nat.succ_lt_succ below, ?_, ?_⟩
        · rwa [Set.mem_ofPred_eq, ticked_succ_of_first]
        · intro k passed'
          obtain ⟨j, rfl, passed'⟩ := later k passed'
          exact Nat.succ_le_succ (least passed')
      · rintro ⟨below, passed, least⟩
        obtain ⟨m, rfl, passed⟩ := later n passed
        refine ⟨m, (ih _ _).mpr ⟨Nat.lt_of_succ_lt_succ below, passed, fun k passed' => ?_⟩, rfl⟩
        have passed' : k + 1 ∈ {k | timerPassed (ticked timerUpdate t k) t0 msec} := by
          rwa [Set.mem_ofPred_eq, ticked_succ_of_first]
        exact Nat.le_of_succ_le_succ (least passed')

theorem delay_ends_iff (t : Timer) (msec : ULong) (n : Nat) :
    (∃ fuel, timerDelay t msec fuel = some n) ↔ IsLeast (reachedAt t msec) n := by
  constructor
  · rintro ⟨fuel, ends⟩
    exact ((delayLoop_eq_some ..).mp ends).2
  · intro least
    exact ⟨n + 1, (delayLoop_eq_some ..).mpr ⟨Nat.lt_succ_self n, least⟩⟩

/-- Two sets of numbers, the second one closed upwards, have the same least numbers if and only if
the first is part of the second and holds its least number. -/
theorem forall_isLeast_iff {P Q : Set Nat} (upward : ∀ {j k}, j ≤ k → j ∈ Q → k ∈ Q) :
    (∀ n, IsLeast P n ↔ IsLeast Q n) ↔ P ⊆ Q ∧ ∀ n, IsLeast Q n → n ∈ P := by
  classical
  constructor
  · intro same
    refine ⟨fun k reached => ?_, fun n least => ((same n).mpr least).1⟩
    have first : IsLeast P (Nat.find ⟨k, reached⟩) :=
      ⟨Nat.find_spec _, fun j reached' => Nat.find_min' _ reached'⟩
    exact upward (first.2 reached) ((same _).mp first).1
  · rintro ⟨sub, least_mem⟩ n
    constructor
    · rintro ⟨reached, least⟩
      have first : IsLeast Q (Nat.find ⟨n, sub reached⟩) :=
        ⟨Nat.find_spec _, fun j reached' => Nat.find_min' _ reached'⟩
      rwa [le_antisymm (least (least_mem _ first)) (first.2 (sub reached))]
    · intro least
      exact ⟨least_mem n least, fun k reached => least.2 (sub reached)⟩

theorem ticksOf_upward {tick msec j k : Nat} (le : j ≤ k) (elapsed : j ∈ ticksOf tick msec) :
    k ∈ ticksOf tick msec :=
  le_trans (show msec ≤ j * tick from elapsed) (Nat.mul_le_mul_right tick le)

theorem delayExact_iff_reached (t : Timer) (msec : ULong) :
    DelayExact t msec ↔ reachedAt t msec ⊆ ticksOf t.msec_per_tick.toNat msec.toNat ∧
      ∀ n, IsLeast (ticksOf t.msec_per_tick.toNat msec.toNat) n → n ∈ reachedAt t msec := by
  rw [← forall_isLeast_iff ticksOf_upward]
  exact forall_congr' fun n => by rw [delay_ends_iff]

section Interval

variable {interval msec : ULong}

/-- `interval_greater_or_equal` over the integers. -/
theorem interval_iff : intervalGreaterOrEqual interval msec = true ↔
    msec.toInt ≤ if interval.toInt < 0 then interval.toInt + 86400000
      else if 86400000 ≤ interval.toInt then interval.toInt - 86400000
      else interval.toInt := by
  have zero : (0 : ULong).toInt = 0 := rfl
  have day : (86400000#32).toNat = 86400000 := rfl
  have value : (if interval.slt 0 then interval + .ofNat 32 msecPerDay
      else if .ofNat 32 msecPerDay ≤ interval then interval - .ofNat 32 msecPerDay
      else interval).toInt = if interval.toInt < 0 then interval.toInt + 86400000
      else if 86400000 ≤ interval.toInt then interval.toInt - 86400000
      else interval.toInt := by
    rw [msecPerDay]
    simp only [slt_iff_toInt_lt, zero, le_def, toInt_eq_toNat_cond]
    split_ifs <;> bv_omega
  rw [← value, ← sle_iff_toInt_le]
  rfl

theorem toInt_of_small (small : msec.toNat < 2 ^ 31) : msec.toInt = msec.toNat :=
  toInt_eq_toNat_of_lt (by omega)

variable {now t0 : ULong}

theorem toInt_sub_of_le (le : t0.toNat ≤ now.toNat) (small : now.toNat - t0.toNat < 2 ^ 31) :
    (now - t0).toInt = (now.toNat - t0.toNat : Nat) := by
  have value : (now - t0).toNat = now.toNat - t0.toNat := toNat_sub_of_le le
  rw [toInt_eq_toNat_of_lt (by omega), value]

theorem toInt_sub_of_lt (lt : now.toNat < t0.toNat) (small : t0.toNat - now.toNat ≤ 2 ^ 31) :
    (now - t0).toInt = -(t0.toNat - now.toNat : Nat) := by
  have value : (now - t0).toNat = 2 ^ 32 - (t0.toNat - now.toNat) := by bv_omega
  rw [toInt_eq_toNat_cond, if_neg (by omega), value]
  omega

theorem interval_negative (negative : 2 ^ 31 ≤ msec.toNat) (now_day : now.toNat < msecPerDay)
    (t0_day : t0.toNat < msecPerDay) :
    intervalGreaterOrEqual (now - t0) msec = true := by
  have below := msec.isLt
  rw [msecPerDay] at now_day t0_day
  rw [interval_iff, toInt_eq_toNat_cond, if_neg (by omega)]
  rcases Nat.lt_or_ge now.toNat t0.toNat with lt | le
  · rw [toInt_sub_of_lt lt (by omega)]
    omega
  · rw [toInt_sub_of_le le (by omega)]
    omega

theorem interval_day {elapsed : Nat} (small : msec.toNat < 2 ^ 31) (t0_day : t0.toNat < msecPerDay)
    (reads : now.toNat = (t0.toNat + elapsed) % msecPerDay) :
    intervalGreaterOrEqual (now - t0) msec = true ↔ msec.toNat ≤ elapsed % msecPerDay := by
  rw [msecPerDay] at *
  rw [interval_iff, toInt_of_small small]
  rcases Nat.lt_or_ge now.toNat t0.toNat with lt | le
  · rw [toInt_sub_of_lt lt (by omega)]
    omega
  · rw [toInt_sub_of_le le (by omega)]
    omega

theorem interval_beyond {read : Nat} (small : msec.toNat < 2 ^ 31)
    (reads : now.toNat = t0.toNat + read) (fits : read + msecPerDay < 2 ^ 32)
    (positive : 0 < msec.toNat) :
    intervalGreaterOrEqual (now - t0) msec = true ↔
      read < 2 ^ 31 ∧ msec.toNat ≤ if read < msecPerDay then read else read - msecPerDay := by
  have below := now.isLt
  have value : (now - t0).toNat = read := by
    rw [toNat_sub_of_le (by rw [le_def]; omega)]
    omega
  rw [msecPerDay] at fits ⊢
  rw [interval_iff, toInt_of_small small, toInt_eq_toNat_cond, value]
  split_ifs <;> omega

end Interval

section Reading

theorem timerUpdate_milliseconds (t : Timer) : (timerUpdate t).2.milliseconds =
    { t.toClock with milliseconds := t.milliseconds + t.msec_per_tick }.midnight.milliseconds := by
  rw [timerUpdate]
  dsimp only
  rw [Clock.decisec]
  split_ifs <;> rfl

theorem midnight_milliseconds (t : Clock) : t.midnight.milliseconds.toNat =
    if msecPerDay ≤ t.milliseconds.toNat then t.milliseconds.toNat - msecPerDay
    else t.milliseconds.toNat := by
  split_ifs with beyond
  · rw [msecPerDay] at beyond ⊢
    rw [Clock.midnight, if_pos (by rw [msecPerDay, le_def]; exact beyond), msecPerDay]
    dsimp only
    bv_omega
  · rw [Clock.midnight_not (Nat.lt_of_not_le beyond)]

theorem ticked_tick (t : Timer) (n : Nat) :
    (ticked timerUpdate t n).msec_per_tick = t.msec_per_tick := by
  induction n with
  | zero => rfl
  | succ n ih =>
    rw [ticked_succ]
    exact ih

theorem ticked_milliseconds_succ (t : Timer) (n : Nat) :
    (ticked timerUpdate t (n + 1)).milliseconds.toNat =
      let sum := ((ticked timerUpdate t n).milliseconds.toNat + t.msec_per_tick.toNat) % 2 ^ 32
      if msecPerDay ≤ sum then sum - msecPerDay else sum := by
  rw [ticked_succ, timerUpdate_milliseconds, midnight_milliseconds, ticked_tick, toNat_add]

variable {t : Timer}

theorem reads_day (timeOfDay : t.milliseconds.toNat < msecPerDay)
    (short : t.msec_per_tick.toNat ≤ msecPerDay) (n : Nat) :
    (ticked timerUpdate t n).milliseconds.toNat =
      (t.milliseconds.toNat + n * t.msec_per_tick.toNat) % msecPerDay := by
  induction n with
  | zero =>
    rw [Nat.zero_mul, Nat.add_zero, Nat.mod_eq_of_lt timeOfDay]
    rfl
  | succ n ih =>
    rw [ticked_milliseconds_succ, ih, Nat.succ_mul, ← Nat.add_assoc]
    generalize t.milliseconds.toNat + n * t.msec_per_tick.toNat = time
    rw [msecPerDay] at short ⊢
    dsimp only
    split_ifs <;> omega

theorem reads_long (long : msecPerDay < t.msec_per_tick.toNat) (n : Nat)
    (fits : t.milliseconds.toNat + n * (t.msec_per_tick.toNat - msecPerDay) + msecPerDay < 2 ^ 32) :
    (ticked timerUpdate t n).milliseconds.toNat =
      t.milliseconds.toNat + n * (t.msec_per_tick.toNat - msecPerDay) := by
  rw [msecPerDay] at long fits ⊢
  induction n with
  | zero =>
    rw [Nat.zero_mul]
    rfl
  | succ n ih =>
    rw [Nat.succ_mul] at fits ⊢
    rw [ticked_milliseconds_succ, ih (by omega), msecPerDay]
    dsimp only
    rw [Nat.mod_eq_of_lt (by omega), if_pos (by omega)]
    omega

end Reading

section Delay

variable {t : Timer} {msec : ULong} (small : msec.toNat < 2 ^ 31)

include small

theorem reachedAt_long (positive : 0 < msec.toNat)
    (long : msecPerDay < t.msec_per_tick.toNat) {n : Nat}
    (fits : t.milliseconds.toNat + n * (t.msec_per_tick.toNat - msecPerDay) + msecPerDay < 2 ^ 32) :
    n ∈ reachedAt t msec ↔
      let read := n * (t.msec_per_tick.toNat - msecPerDay)
      read < 2 ^ 31 ∧ msec.toNat ≤ if read < msecPerDay then read else read - msecPerDay :=
  interval_beyond small (reads_long long n fits) (by omega) positive

variable (timeOfDay : t.milliseconds.toNat < msecPerDay)
include timeOfDay

theorem reachedAt_short (short : t.msec_per_tick.toNat ≤ msecPerDay) (n : Nat) :
    n ∈ reachedAt t msec ↔ msec.toNat ≤ n * t.msec_per_tick.toNat % msecPerDay :=
  interval_day small timeOfDay (reads_day timeOfDay short n)

theorem reachedAt_one
    (wraps : 2 ^ 32 ≤ t.milliseconds.toNat + t.msec_per_tick.toNat) :
    1 ∈ reachedAt t msec ↔ msec.toNat + 2 ^ 32 ≤ t.msec_per_tick.toNat + msecPerDay := by
  have tick := t.msec_per_tick.isLt
  have reads : (ticked timerUpdate t 1).milliseconds.toNat =
      (t.milliseconds.toNat + (t.msec_per_tick.toNat + msecPerDay - 2 ^ 32)) % msecPerDay := by
    rw [msecPerDay] at timeOfDay ⊢
    rw [ticked_milliseconds_succ, msecPerDay]
    have start : ticked timerUpdate t 0 = t := rfl
    rw [start]
    dsimp only
    split_ifs <;> omega
  refine (interval_day small timeOfDay reads).trans ?_
  rw [msecPerDay] at timeOfDay ⊢
  omega

theorem reachedAt_sub : reachedAt t msec ⊆ ticksOf t.msec_per_tick.toNat msec.toNat := by
  intro n reached
  by_contra early
  have early : n * t.msec_per_tick.toNat < msec.toNat := Nat.lt_of_not_le early
  rcases Nat.lt_or_ge msecPerDay t.msec_per_tick.toNat with long | short
  · have read : n * t.msec_per_tick.toNat =
        n * (t.msec_per_tick.toNat - msecPerDay) + n * msecPerDay := by
      rw [← Nat.mul_add, Nat.sub_add_cancel long.le]
    rw [msecPerDay] at timeOfDay
    have fits : t.milliseconds.toNat + n * (t.msec_per_tick.toNat - msecPerDay) + msecPerDay <
        2 ^ 32 := by
      rw [msecPerDay] at read ⊢
      omega
    have := (reachedAt_long small (by omega) long fits).mp reached
    dsimp only at this
    split_ifs at this <;> omega
  · have := (reachedAt_short small timeOfDay short n).mp reached
    have := Nat.mod_le (n * t.msec_per_tick.toNat) msecPerDay
    omega

theorem reachedAt_due_iff {due : Nat}
    (least : IsLeast (ticksOf t.msec_per_tick.toNat msec.toNat) due) :
    due ∈ reachedAt t msec ↔
      ReadsDue t.milliseconds.toNat t.msec_per_tick.toNat msec.toNat due := by
  have enough : msec.toNat ≤ due * t.msec_per_tick.toNat := least.1
  have tick := t.msec_per_tick.isLt
  rcases Nat.eq_zero_or_pos msec.toNat with none | positive
  · have first : due = 0 := Nat.le_zero.mp (least.2 (by
      rw [ticksOf, Set.mem_ofPred_eq, none]
      exact Nat.zero_le _))
    rw [first, none, ReadsDue, Nat.zero_mul, Nat.zero_mul]
    refine iff_of_true ?_ ?_
    · have reads : t.milliseconds.toNat = (t.milliseconds.toNat + 0) % msecPerDay :=
        (Nat.mod_eq_of_lt timeOfDay).symm
      refine (interval_day small timeOfDay reads).mpr ?_
      rw [none]
      exact Nat.zero_le _
    · split_ifs with short
      · decide
      · exact .inl ⟨by decide, Nat.zero_le _⟩
  · obtain ⟨n, rfl⟩ : ∃ n, due = n + 1 := Nat.exists_eq_add_one.mpr
      (Nat.pos_of_mul_pos_right (positive.trans_le enough))
    have before : n * t.msec_per_tick.toNat < msec.toNat :=
      Nat.lt_of_not_le fun early => Nat.not_succ_le_self n (least.2 early)
    rw [ReadsDue]
    rw [Nat.succ_mul] at enough ⊢
    split_ifs with short
    · rw [reachedAt_short small timeOfDay short, Nat.succ_mul]
      rw [msecPerDay] at short ⊢
      omega
    · have long := Nat.lt_of_not_le short
      have read : (n + 1) * t.msec_per_tick.toNat =
          (n + 1) * (t.msec_per_tick.toNat - msecPerDay) + (n + 1) * msecPerDay := by
        rw [← Nat.mul_add, Nat.sub_add_cancel long.le]
      have later : n = 0 ∧ n * t.msec_per_tick.toNat = 0 ∨
          0 < n ∧ t.msec_per_tick.toNat ≤ n * t.msec_per_tick.toNat := by
        rcases Nat.eq_zero_or_pos n with rfl | pos
        · exact .inl ⟨rfl, Nat.zero_mul _⟩
        · exact .inr ⟨pos, Nat.le_mul_of_pos_left _ pos⟩
      rw [Nat.succ_mul] at read
      rcases Nat.lt_or_ge (t.milliseconds.toNat + t.msec_per_tick.toNat) (2 ^ 32) with fits | wraps
      · rw [reachedAt_long small positive long (by rw [msecPerDay] at *; omega)]
        exact (or_iff_left fun wraps => by omega).symm
      · obtain rfl : n = 0 := by
          rw [msecPerDay] at timeOfDay
          omega
        rw [msecPerDay] at timeOfDay
        rw [reachedAt_one small timeOfDay wraps, Nat.zero_add, Nat.one_mul]
        refine ⟨fun reads => .inr ⟨wraps, positive, reads⟩, ?_⟩
        rintro (⟨below, -⟩ | ⟨-, -, reads⟩)
        · rw [msecPerDay] at below
          omega
        · exact reads

end Delay

theorem delayExact_iff {t : Timer} (timeOfDay : t.milliseconds.toNat < msecPerDay)
    (msec : ULong) : DelayExact t msec ↔
      DelayEnds t.milliseconds.toNat t.msec_per_tick.toNat msec.toNat := by
  rw [delayExact_iff_reached]
  constructor
  · rintro ⟨never_early, at_due⟩
    have small : msec.toNat < 2 ^ 31 := by
      by_contra negative
      have negative := Nat.le_of_not_lt negative
      have at_once : 0 ∈ reachedAt t msec := interval_negative negative timeOfDay timeOfDay
      have elapsed : msec.toNat ≤ 0 * t.msec_per_tick.toNat := never_early at_once
      omega
    exact ⟨small, fun due least => (reachedAt_due_iff small timeOfDay least).mp (at_due due least)⟩
  · rintro ⟨small, reads⟩
    exact ⟨reachedAt_sub small timeOfDay,
      fun due least => (reachedAt_due_iff small timeOfDay least).mpr (reads due least)⟩

/-- Less than a day after its call, `timer_passed` is right for every number that is not
negative. -/
theorem timerPassed_iff {t : Timer} (timeOfDay : t.milliseconds.toNat < msecPerDay)
    (msec : ULong) {n : Nat} (within : n * t.msec_per_tick.toNat < msecPerDay) :
    (timerPassed (ticked timerUpdate t n) t.milliseconds msec ↔
      msec.toNat ≤ n * t.msec_per_tick.toNat) ↔ msec.toNat < 2 ^ 31 := by
  have reads : (ticked timerUpdate t n).milliseconds.toNat =
      (t.milliseconds.toNat + n * t.msec_per_tick.toNat) % msecPerDay := by
    rcases Nat.eq_zero_or_pos n with rfl | positive
    · rw [Nat.zero_mul, Nat.add_zero, Nat.mod_eq_of_lt timeOfDay]
      rfl
    · exact reads_day timeOfDay ((Nat.le_mul_of_pos_left _ positive).trans within.le) n
  rcases Nat.lt_or_ge msec.toNat (2 ^ 31) with small | negative
  · refine iff_of_true ?_ small
    rw [timerPassed, interval_day small timeOfDay reads, Nat.mod_eq_of_lt within]
  · refine iff_of_false ?_ negative.not_gt
    intro right
    have now_day : (ticked timerUpdate t n).milliseconds.toNat < msecPerDay := by
      rw [reads]
      exact Nat.mod_lt _ (by decide)
    have elapsed := right.mp (interval_negative negative now_day timeOfDay)
    rw [msecPerDay] at within
    omega

/-- A delay, and a test less than a day after its call. -/
theorem delays_exact_iff {t : Timer} (timeOfDay : t.milliseconds.toNat < msecPerDay)
    (msec : ULong) :
    (DelayExact t msec ↔ DelayEnds t.milliseconds.toNat t.msec_per_tick.toNat msec.toNat) ∧
      ∀ n, n * t.msec_per_tick.toNat < msecPerDay →
        ((timerPassed (ticked timerUpdate t n) t.milliseconds msec ↔
          msec.toNat ≤ n * t.msec_per_tick.toNat) ↔ msec.toNat < 2 ^ 31) :=
  ⟨delayExact_iff timeOfDay msec, fun _ within => timerPassed_iff timeOfDay msec within⟩

/-- A delay of 10 seconds across midnight, in ticks of 10 milliseconds. -/
theorem delays_exact_midnight :
    DelayExact { milliseconds := 86399000, msec_per_tick := 10 } 10000 := by
  refine (delays_exact_iff (by decide) 10000).1.mpr ⟨by decide, fun due least => ?_⟩
  have within : due ≤ 1000 := least.2 (show 10000 ≤ 1000 * 10 by decide)
  rw [ReadsDue, if_pos (by decide), msecPerDay]
  exact (Nat.mul_le_mul_right _ within).trans_lt (by decide)

/-- In ticks of 10 milliseconds a delay of five milliseconds less than a day does not end when it is
due, and a delay of 2^31 milliseconds ends at once. -/
theorem delays_wrong :
    ¬DelayExact { msec_per_tick := 10 } 86399995 ∧
      ¬DelayExact { msec_per_tick := 10 } 0x80000000 ∧
        timerPassed { msec_per_tick := 10 } 0 0x80000000 = true := by
  have midnight : (0 : ULong).toNat < msecPerDay := by decide
  refine ⟨?_, ?_, by decide⟩
  · rw [delayExact_iff midnight]
    rintro ⟨-, reads⟩
    have due : IsLeast (ticksOf 10 86399995) 8640000 := by
      refine ⟨show 86399995 ≤ 8640000 * 10 by decide, fun k elapsed => ?_⟩
      have elapsed : 86399995 ≤ k * 10 := elapsed
      omega
    have day := reads _ due
    rw [ReadsDue, if_pos (by decide)] at day
    exact absurd day (by decide)
  · rw [delayExact_iff midnight]
    rintro ⟨small, -⟩
    exact absurd small (by decide)

end Uos
