import Mathlib.Data.Nat.Count
import Uos.Net.Bytes

/-!
# The clock

`timer_update` of `timer/timer.c`, without and with `USEC_TIMER`: the time of day, the days, and the
ticks at which the mutex `decisec` is due.
-/

namespace Uos

open BitVec

/-- `TIMER_MSEC_PER_DAY` -/
def msecPerDay : Nat := 24 * 60 * 60 * 1000

/-- `TIMER_USEC_PER_MSEC` -/
def usecPerMsec : ULong := 1000

/-- The counters of a `timer_t` that both builds have. -/
structure Clock where
  milliseconds : ULong := 0
  next_decisec : ULong := 0
  days : BitVec 32 := 0

namespace Clock

def midnight (t : Clock) : Clock :=
  if .ofNat 32 msecPerDay ≤ t.milliseconds then
    { milliseconds := t.milliseconds - .ofNat 32 msecPerDay
      next_decisec := t.next_decisec - .ofNat 32 msecPerDay
      days := t.days + 1 }
  else t

/-- Whether `decisec` is due, where the ticks are not too long. -/
def decisec (t : Clock) (short : Bool) : Bool × Clock :=
  if short ∧ t.next_decisec ≤ t.milliseconds then
    (true, { t with next_decisec := t.next_decisec + 100 })
  else (false, t)

end Clock

/-- A `timer_t` without `USEC_TIMER`. -/
structure Timer extends Clock where
  msec_per_tick : ULong

/-- `timer_update`: whether `decisec` is due, and the new state. -/
def timerUpdate (t : Timer) : Bool × Timer :=
  let clock := { t.toClock with milliseconds := t.milliseconds + t.msec_per_tick }.midnight
  let (due, clock) := clock.decisec (t.msec_per_tick ≤ 100)
  (due, { t with toClock := clock })

/-- A `timer_t` with `USEC_TIMER`. -/
structure UsecTimer extends Clock where
  usec_per_tick : ULong
  usec_in_msec : ULong := 0

def carryUsec (milliseconds usec_in_msec : ULong) : ULong × ULong :=
  if usecPerMsec < usec_in_msec then
    carryUsec (milliseconds + 1) (usec_in_msec - usecPerMsec)
  else (milliseconds, usec_in_msec)
termination_by usec_in_msec.toNat
decreasing_by
  rename_i above
  rw [usecPerMsec] at above ⊢
  bv_omega

/-- `timer_update` with `USEC_TIMER`. -/
def timerUpdateUsec (t : UsecTimer) : Bool × UsecTimer :=
  let (milliseconds, usec_in_msec) := carryUsec t.milliseconds (t.usec_in_msec + t.usec_per_tick)
  let clock := { t.toClock with milliseconds }.midnight
  let (due, clock) := clock.decisec (t.usec_per_tick / 1000 ≤ 100)
  (due, { t with toClock := clock, usec_in_msec })

section Ticks

variable {Timer : Type} (update : Timer → Bool × Timer) (start : Timer)

def ticked (n : Nat) : Timer :=
  (fun t => (update t).2)^[n] start

/-- At the tick behind so many ticks `decisec` is due. -/
def dueAt (n : Nat) : Prop :=
  (update (ticked update start n)).1 = true

instance : DecidablePred (dueAt update start) :=
  fun n => inferInstanceAs (Decidable ((update (ticked update start n)).1 = true))

theorem ticked_succ (n : Nat) :
    ticked update start (n + 1) = (update (ticked update start n)).2 :=
  Function.iterate_succ_apply' ..

end Ticks

/-- The clock shows that so many milliseconds are over. -/
structure Clock.Shows (t : Clock) (msec : Nat) : Prop where
  total : t.days.toNat * msecPerDay + t.milliseconds.toNat = msec
  below : t.milliseconds.toNat < msecPerDay

/-- The clock is right, and `decisec` is due whenever 100 milliseconds more are over. -/
structure Clock.Steady (t : Clock) (msec : Nat) : Prop where
  days : t.days.toNat = msec / msecPerDay
  milliseconds : t.milliseconds.toNat = msec % msecPerDay
  next_decisec : t.next_decisec.toNat + msecPerDay * (msec / msecPerDay) = 100 * (msec / 100 + 1)

variable {t : Clock} {msec : Nat} {milliseconds m : ULong} {k : Nat} {u : ULong}

theorem Clock.Steady.shows (steady : t.Steady msec) : t.Shows msec := by
  refine ⟨?_, ?_⟩
  · rw [steady.days, steady.milliseconds]
    exact Nat.div_add_mod' ..
  · rw [steady.milliseconds]
    exact Nat.mod_lt _ (by decide)

theorem Clock.midnight_toNat (days : t.days.toNat + 1 < 2 ^ 32)
    (beyond : msecPerDay ≤ t.milliseconds.toNat) (later : msecPerDay ≤ t.next_decisec.toNat) :
    t.midnight.days.toNat = t.days.toNat + 1 ∧
      t.midnight.milliseconds.toNat = t.milliseconds.toNat - msecPerDay ∧
      t.midnight.next_decisec.toNat = t.next_decisec.toNat - msecPerDay := by
  rw [msecPerDay] at beyond later ⊢
  rw [midnight, if_pos (by rw [msecPerDay, le_def]; exact beyond), msecPerDay]
  refine ⟨?_, ?_, ?_⟩ <;> dsimp only <;> bv_omega

theorem Clock.midnight_not (within : t.milliseconds.toNat < msecPerDay) :
    t.midnight = t := by
  rw [midnight, if_neg]
  rw [le_def, Nat.not_le]
  exact within

theorem Clock.decisec_toNat (t : Clock) (fits : t.next_decisec.toNat + 100 < 2 ^ 32) :
    (t.decisec true).2.days = t.days ∧ (t.decisec true).2.milliseconds = t.milliseconds ∧
      ((t.decisec true).1 = true ↔ t.next_decisec.toNat ≤ t.milliseconds.toNat) ∧
      (t.decisec true).2.next_decisec.toNat =
        if t.next_decisec.toNat ≤ t.milliseconds.toNat then t.next_decisec.toNat + 100
        else t.next_decisec.toNat := by
  have due_iff : (true = true ∧ t.next_decisec ≤ t.milliseconds) ↔
      t.next_decisec.toNat ≤ t.milliseconds.toNat := by
    rw [le_def, and_iff_right rfl]
  rw [decisec]
  split_ifs with due reached reached
  · refine ⟨rfl, rfl, iff_of_true rfl reached, ?_⟩
    dsimp only
    bv_omega
  · exact absurd (due_iff.mp due) reached
  · exact absurd (due_iff.mpr reached) due
  · exact ⟨rfl, rfl, iff_of_false (by decide) reached, rfl⟩

theorem Clock.Steady.tick {step : Nat} (steady : t.Steady msec) (short : step ≤ 100)
    (fits : msec + step < 2 ^ 32 * msecPerDay)
    (passed : milliseconds.toNat = t.milliseconds.toNat + step) :
    let result := { t with milliseconds }.midnight.decisec true
    result.2.Steady (msec + step) ∧ (result.1 = true ↔ msec / 100 < (msec + step) / 100) := by
  obtain ⟨days, millis, next⟩ := steady
  have day : msecPerDay = 86400000 := rfl
  rw [day] at days millis next fits
  rcases Nat.lt_or_ge milliseconds.toNat msecPerDay with within | beyond
  · have same := @midnight_not { t with milliseconds } within
    rw [day] at within
    dsimp only
    rw [same]
    obtain ⟨days', millis', due, next'⟩ := decisec_toNat { t with milliseconds } (by
      dsimp only
      omega)
    dsimp only at days' millis' due next'
    refine ⟨⟨?_, ?_, ?_⟩, ?_⟩
    · rw [days', days, day]
      omega
    · rw [millis', passed, day]
      omega
    · rw [next', day]
      split_ifs <;> omega
    · rw [due]
      omega
  · rw [day] at beyond
    obtain ⟨days_mid, millis_mid, next_mid⟩ := @midnight_toNat { t with milliseconds }
      (by dsimp only; omega) (by dsimp only; rw [day]; omega) (by dsimp only; rw [day]; omega)
    dsimp only at days_mid millis_mid next_mid ⊢
    rw [day] at millis_mid next_mid
    obtain ⟨days', millis', due, next'⟩ := decisec_toNat { t with milliseconds }.midnight (by omega)
    refine ⟨⟨?_, ?_, ?_⟩, ?_⟩
    · rw [days', days_mid, days, day]
      omega
    · rw [millis', millis_mid, passed, day]
      omega
    · rw [next', day, millis_mid, next_mid]
      split_ifs <;> omega
    · rw [due, millis_mid, next_mid]
      omega

/-- In so many ticks of equal length the clock does not drift, and `decisec` is due at the first
tick and whenever a decisecond more is over, so that it is due once for each of them. -/
structure NoDrift {Timer : Type} (update : Timer → Bool × Timer) (start : Timer)
    (shows : Timer → Nat → Prop) (decisec perTick n : Nat) : Prop where
  time : ∀ k ≤ n, shows (ticked update start k) (k * perTick)
  due : ∀ k < n, dueAt update start k ↔
    k = 0 ∨ k * perTick / decisec < (k + 1) * perTick / decisec
  count : ∀ k ≤ n, decisec * Nat.count (dueAt update start) k ≤ k * perTick + decisec ∧
    k * perTick ≤ decisec * Nat.count (dueAt update start) k + decisec

section NoDrift

variable {Timer : Type} {update : Timer → Bool × Timer} {start : Timer}
  {shows : Timer → Nat → Prop} {decisec perTick n : Nat}

theorem div_succ_mul (positive : 0 < decisec) (short : perTick ≤ decisec) (k : Nat) :
    (k + 1) * perTick / decisec ≤ k * perTick / decisec + 1 ∧
      k * perTick / decisec ≤ (k + 1) * perTick / decisec := by
  rw [Nat.succ_mul, ← Nat.add_div_right _ positive]
  exact ⟨Nat.div_le_div_right (Nat.add_le_add_left short _),
    Nat.div_le_div_right (Nat.le_add_right _ _)⟩

theorem count_due (positive : 0 < decisec) (short : perTick ≤ decisec)
    (due : ∀ k < n, dueAt update start k ↔
      k = 0 ∨ k * perTick / decisec < (k + 1) * perTick / decisec) {k : Nat} (le : k + 1 ≤ n) :
    Nat.count (dueAt update start) (k + 1) + perTick / decisec =
      (k + 1) * perTick / decisec + 1 := by
  induction k with
  | zero =>
    rw [Nat.count_succ, if_pos ((due 0 le).mpr (.inl rfl)), Nat.count_zero, zero_add, one_mul,
      Nat.add_comm]
  | succ k ih =>
    have before := ih (Nat.le_of_succ_le le)
    have steps := div_succ_mul positive short (k + 1)
    rw [Nat.count_succ]
    split_ifs with reached
    · have := (due (k + 1) le).mp reached
      omega
    · rw [due (k + 1) le] at reached
      omega

/-- Where `decisec` is due whenever it should be, it is due as often as it should be. -/
theorem noDrift_of_due (positive : 0 < decisec) (short : perTick ≤ decisec)
    (time : ∀ k ≤ n, shows (ticked update start k) (k * perTick))
    (due : ∀ k < n, dueAt update start k ↔
      k = 0 ∨ k * perTick / decisec < (k + 1) * perTick / decisec) :
    NoDrift update start shows decisec perTick n := by
  refine ⟨time, due, fun k le => ?_⟩
  cases k with
  | zero => simp
  | succ k =>
    have times := count_due positive short due le
    have whole := Nat.div_add_mod ((k + 1) * perTick) decisec
    have rest := Nat.mod_lt ((k + 1) * perTick) positive
    generalize Nat.count (dueAt update start) (k + 1) = count at times ⊢
    rcases short.lt_or_eq with less | rfl
    · rw [Nat.div_eq_of_lt less, Nat.add_zero] at times
      rw [times, Nat.mul_add, Nat.mul_one]
      omega
    · rw [Nat.div_self positive, Nat.mul_div_cancel _ positive] at times
      obtain rfl : count = k + 1 := by omega
      rw [Nat.mul_comm]
      omega

end NoDrift

/-- The initial state without `USEC_TIMER`. -/
def Timer.initial (msec_per_tick : ULong) : Timer :=
  { msec_per_tick }

theorem ticked_msec_per_tick (m : ULong) (k : Nat) :
    (ticked timerUpdate (.initial m) k).msec_per_tick = m := by
  induction k with
  | zero => rfl
  | succ k ih =>
    rw [ticked_succ]
    exact ih

/-- `decisec` is due at the first tick, which makes the clock steady. -/
theorem Clock.first (short : milliseconds.toNat < 100) :
    let result := ({ milliseconds } : Clock).midnight.decisec true
    result.1 = true ∧ result.2.Steady milliseconds.toNat := by
  have day : msecPerDay = 86400000 := rfl
  have same := @midnight_not { milliseconds } (by dsimp only; omega)
  have room : (0 : ULong).toNat + 100 < 2 ^ 32 := by decide
  obtain ⟨days, millis, due, next⟩ := decisec_toNat { milliseconds } room
  have zero : (0 : ULong).toNat = 0 := rfl
  dsimp only at millis due next
  rw [same]
  refine ⟨due.mpr (Nat.zero_le _), ?_, ?_, ?_⟩
  · rw [days, day]
    exact (Nat.div_eq_of_lt (by omega)).symm
  · rw [millis, day]
    exact (Nat.mod_eq_of_lt (by omega)).symm
  · rw [next, zero, if_pos (Nat.zero_le _), Nat.div_eq_of_lt short, day,
      Nat.div_eq_of_lt (show milliseconds.toNat < 86400000 by omega)]

theorem timerUpdate_short {t : Timer} (short : t.msec_per_tick.toNat ≤ 100) :
    timerUpdate t =
      let result := { t.toClock with milliseconds := t.milliseconds + t.msec_per_tick
        }.midnight.decisec true
      (result.1, { t with toClock := result.2 }) := by
  have small : decide (t.msec_per_tick ≤ 100) = true := decide_eq_true short
  rw [timerUpdate, small]

theorem Clock.Steady.passed (steady : t.Steady msec) (short : m.toNat ≤ 100) :
    (t.milliseconds + m).toNat = t.milliseconds.toNat + m.toNat := by
  have := steady.shows.below
  rw [msecPerDay] at this
  bv_omega

theorem steady_ticked (short : m.toNat < 100) (fits : (k + 1) * m.toNat < 2 ^ 32 * msecPerDay) :
    (ticked timerUpdate (.initial m) (k + 1)).Steady ((k + 1) * m.toNat) := by
  induction k with
  | zero =>
    have first := (Clock.first short).2
    rw [zero_add, one_mul, ← zero_add 1, ticked_succ,
      timerUpdate_short (by rw [ticked_msec_per_tick]; exact short.le)]
    simpa [ticked, Timer.initial] using first
  | succ k ih =>
    rw [Nat.succ_mul] at fits ⊢
    have steady := ih (by omega)
    rw [ticked_succ, timerUpdate_short (by rw [ticked_msec_per_tick]; exact short.le),
      ticked_msec_per_tick]
    exact (steady.tick short.le fits (steady.passed short.le)).1

/-- The state of a clock that ticks every 100 milliseconds, in the first day. -/
structure Clock.Level (t : Clock) (msec : Nat) : Prop where
  days : t.days = 0
  milliseconds : t.milliseconds.toNat = msec
  next_decisec : t.next_decisec.toNat = msec

theorem Clock.Level.shows (level : t.Level msec) (first : msec < msecPerDay) : t.Shows msec := by
  refine ⟨?_, ?_⟩
  · rw [level.days, level.milliseconds]
    simp
  · rwa [level.milliseconds]

theorem Clock.Level.tick (level : t.Level msec) (first : msec + 100 < msecPerDay)
    (passed : milliseconds.toNat = t.milliseconds.toNat + 100) :
    let result := { t with milliseconds }.midnight.decisec true
    result.1 = true ∧ result.2.Level (msec + 100) := by
  obtain ⟨days, millis, next⟩ := level
  rw [millis] at passed
  have same := @midnight_not { t with milliseconds } (by dsimp only; omega)
  rw [msecPerDay] at first
  obtain ⟨days', millis', due, next'⟩ := decisec_toNat { t with milliseconds }
    (by dsimp only; omega)
  dsimp only at days' millis' due next' ⊢
  rw [next, passed, if_pos (Nat.le_add_right _ _)] at next'
  rw [next, passed] at due
  rw [same]
  exact ⟨due.mpr (Nat.le_add_right _ _), days'.trans days, by rw [millis', passed], next'⟩

/-- At the end of the day `next_decisec` underflows. -/
theorem Clock.Level.last {t : Clock} {msec : Nat} (level : t.Level msec)
    (last : msec + 100 = msecPerDay) {milliseconds : ULong}
    (passed : milliseconds.toNat = t.milliseconds.toNat + 100) :
    ({ t with milliseconds }.midnight.decisec true).1 = false := by
  obtain ⟨days, millis, next⟩ := level
  rw [msecPerDay] at last
  have beyond : BitVec.ofNat 32 msecPerDay ≤ milliseconds := by
    rw [msecPerDay]
    bv_omega
  rw [midnight, if_pos beyond, decisec, if_neg]
  rw [msecPerDay, le_def]
  bv_omega

theorem level_ticked (hundred : m.toNat = 100) (first : k * 100 < msecPerDay) :
    (ticked timerUpdate (.initial m) k).Level (k * 100) := by
  induction k with
  | zero => exact ⟨rfl, rfl, rfl⟩
  | succ k ih =>
    rw [Nat.succ_mul] at first ⊢
    have level := ih (by omega)
    have short : m.toNat ≤ 100 := hundred.le
    rw [ticked_succ, timerUpdate_short (by rwa [ticked_msec_per_tick]), ticked_msec_per_tick]
    refine (level.tick first ?_).2
    have := level.milliseconds
    rw [msecPerDay] at first
    bv_omega

theorem level_passed (hundred : m.toNat = 100) (first : k * 100 < msecPerDay) :
    ((ticked timerUpdate (.initial m) k).milliseconds + m).toNat =
      (ticked timerUpdate (.initial m) k).milliseconds.toNat + 100 := by
  have := (level_ticked hundred first).milliseconds
  rw [msecPerDay] at first
  bv_omega

theorem level_due (hundred : m.toNat = 100) (first : (k + 1) * 100 < msecPerDay) :
    dueAt timerUpdate (.initial m) k := by
  rw [Nat.succ_mul] at first
  have before : k * 100 < msecPerDay := by omega
  rw [dueAt, timerUpdate_short (by rw [ticked_msec_per_tick]; exact hundred.le),
    ticked_msec_per_tick]
  exact ((level_ticked hundred before).tick first (level_passed hundred before)).1

theorem level_last (hundred : m.toNat = 100) (last : (k + 1) * 100 = msecPerDay) :
    ¬dueAt timerUpdate (.initial m) k := by
  rw [Nat.succ_mul] at last
  have before : k * 100 < msecPerDay := by omega
  have missed := (level_ticked hundred before).last last (level_passed hundred before)
  rw [dueAt, timerUpdate_short (by rw [ticked_msec_per_tick]; exact hundred.le),
    ticked_msec_per_tick]
  rw [missed]
  exact Bool.false_ne_true

theorem steady_due (short : m.toNat < 100) (fits : (k + 1) * m.toNat < 2 ^ 32 * msecPerDay) :
    dueAt timerUpdate (.initial m) k ↔
      k = 0 ∨ k * m.toNat / 100 < (k + 1) * m.toNat / 100 := by
  rw [dueAt, timerUpdate_short (by rw [ticked_msec_per_tick]; exact short.le),
    ticked_msec_per_tick]
  cases k with
  | zero =>
    refine iff_of_true ?_ (.inl rfl)
    have first := (Clock.first short).1
    simpa [ticked, Timer.initial] using first
  | succ k =>
    rw [Nat.succ_mul (k + 1)] at fits ⊢
    have steady := @steady_ticked m k short (by omega)
    rw [(steady.tick short.le fits (steady.passed short.le)).2]
    exact (or_iff_right (Nat.succ_ne_zero k)).symm

/-- Without `USEC_TIMER`. -/
theorem noDrift_iff (high : m.toNat ≤ 100) (n : Nat) :
    NoDrift timerUpdate (.initial m) (fun t => t.toClock.Shows) 100 m.toNat n ↔
      n * m.toNat < 2 ^ 32 * msecPerDay ∧ (m.toNat = 100 → n * m.toNat < msecPerDay) := by
  constructor
  · intro exact
    constructor
    · obtain ⟨total, below⟩ := exact.time n le_rfl
      have := (ticked timerUpdate (.initial m) n).days.isLt
      rw [← total]
      rw [msecPerDay] at below ⊢
      omega
    · intro hundred
      by_contra late
      rw [hundred, Nat.not_lt] at late
      have day : msecPerDay = 86400000 := rfl
      have due := exact.due 863999 (by omega)
      rw [hundred] at due
      exact level_last hundred (by decide) (due.mpr (by decide))
  · rintro ⟨fits, first⟩
    have fits : ∀ k ≤ n, k * m.toNat < 2 ^ 32 * msecPerDay := fun k le =>
      (Nat.mul_le_mul_right _ le).trans_lt fits
    rcases high.lt_or_eq with short | hundred
    · apply noDrift_of_due (by decide) high
      · intro k le
        cases k with
        | zero =>
          rw [Nat.zero_mul]
          exact Clock.Level.shows ⟨rfl, rfl, rfl⟩ (by decide)
        | succ k => exact (steady_ticked short (fits _ le)).shows
      · intro k le
        exact steady_due short (fits _ le)
    · rw [hundred] at first ⊢
      have first : ∀ k ≤ n, k * 100 < msecPerDay := fun k le =>
        (Nat.mul_le_mul_right _ le).trans_lt (first rfl)
      apply noDrift_of_due (by decide) le_rfl
      · intro k le
        exact (level_ticked hundred (first k le)).shows (first k le)
      · intro k le
        apply iff_of_true (level_due hundred (first _ le))
        rw [Nat.mul_div_cancel _ (by decide), Nat.mul_div_cancel _ (by decide)]
        exact .inr (Nat.lt_succ_self k)

theorem carryUsec_toNat (milliseconds usec_in_msec : ULong)
    (fits : milliseconds.toNat + (usec_in_msec.toNat - 1) / 1000 < 2 ^ 32) :
    (carryUsec milliseconds usec_in_msec).1.toNat =
        milliseconds.toNat + (usec_in_msec.toNat - 1) / 1000 ∧
      (carryUsec milliseconds usec_in_msec).2.toNat =
        usec_in_msec.toNat - 1000 * ((usec_in_msec.toNat - 1) / 1000) := by
  induction milliseconds, usec_in_msec using carryUsec.induct with
  | case1 milliseconds usec_in_msec above ih =>
    rw [carryUsec, if_pos above]
    rw [usecPerMsec] at above ih ⊢
    have above : 1000 < usec_in_msec.toNat := above
    have less : (usec_in_msec - 1000).toNat = usec_in_msec.toNat - 1000 := by bv_omega
    have next : (milliseconds + 1).toNat = milliseconds.toNat + 1 := by
      have : (1 : ULong).toNat = 1 := rfl
      rw [toNat_add, this]
      omega
    rw [less, next] at ih
    obtain ⟨millis, usecs⟩ := ih (by omega)
    rw [millis, usecs]
    omega
  | case2 milliseconds usec_in_msec within =>
    rw [carryUsec, if_neg within]
    rw [usecPerMsec] at within
    have within : ¬1000 < usec_in_msec.toNat := within
    dsimp only
    omega

/-- The initial state with `USEC_TIMER`. -/
def UsecTimer.initial (usec_per_tick : ULong) : UsecTimer :=
  { usec_per_tick }

/-- The clock with `USEC_TIMER` is steady, and the rest of the time is in `usec_in_msec`. -/
structure UsecTimer.Steady (t : UsecTimer) (usec : Nat) : Prop where
  clock : t.toClock.Steady ((usec - 1) / 1000)
  rest : t.usec_in_msec.toNat = usec - 1000 * ((usec - 1) / 1000)

/-- The clock with `USEC_TIMER` shows that so many microseconds are over. -/
structure UsecTimer.Shows (t : UsecTimer) (usec : Nat) : Prop where
  total : (t.days.toNat * msecPerDay + t.milliseconds.toNat) * 1000 + t.usec_in_msec.toNat = usec
  below : t.milliseconds.toNat < msecPerDay
  rest : t.usec_in_msec.toNat < 1000

theorem timerUpdateUsec_short {t : UsecTimer} (short : t.usec_per_tick.toNat ≤ 100000) :
    timerUpdateUsec t =
      let time := carryUsec t.milliseconds (t.usec_in_msec + t.usec_per_tick)
      let result := { t.toClock with milliseconds := time.1 }.midnight.decisec true
      (result.1, { t with toClock := result.2, usec_in_msec := time.2 }) := by
  have small : decide (t.usec_per_tick / 1000 ≤ 100) = true := by
    apply decide_eq_true
    have thousand : (1000 : ULong).toNat = 1000 := rfl
    have hundred : (100 : ULong).toNat = 100 := rfl
    rw [le_def, toNat_udiv, thousand, hundred]
    omega
  rw [timerUpdateUsec, small]

theorem usec_per_tick_ticked (u : ULong) (k : Nat) :
    (ticked timerUpdateUsec (.initial u) k).usec_per_tick = u := by
  induction k with
  | zero => rfl
  | succ k ih =>
    rw [ticked_succ]
    exact ih

theorem UsecTimer.Steady.passed {t : UsecTimer} {usec : Nat} (steady : t.Steady usec)
    (short : u.toNat ≤ 100000) :
    (carryUsec t.milliseconds (t.usec_in_msec + u)).1.toNat =
        t.milliseconds.toNat + ((usec + u.toNat - 1) / 1000 - (usec - 1) / 1000) ∧
      (carryUsec t.milliseconds (t.usec_in_msec + u)).2.toNat =
        usec + u.toNat - 1000 * ((usec + u.toNat - 1) / 1000) := by
  have below := steady.clock.shows.below
  have rest := steady.rest
  rw [msecPerDay] at below
  have sum : (t.usec_in_msec + u).toNat = t.usec_in_msec.toNat + u.toNat := by bv_omega
  obtain ⟨millis, usecs⟩ := carryUsec_toNat t.milliseconds (t.usec_in_msec + u)
    (by rw [sum]; omega)
  rw [millis, usecs, sum]
  omega

theorem UsecTimer.Steady.tick {t : UsecTimer} {usec : Nat} (steady : t.Steady usec)
    (short : t.usec_per_tick.toNat ≤ 100000)
    (fits : usec + t.usec_per_tick.toNat < 2 ^ 32 * msecPerDay * 1000) :
    (timerUpdateUsec t).2.Steady (usec + t.usec_per_tick.toNat) ∧
      ((timerUpdateUsec t).1 = true ↔
        (usec - 1) / 1000 / 100 < (usec + t.usec_per_tick.toNat - 1) / 1000 / 100) := by
  obtain ⟨passed, rest⟩ := steady.passed short
  have whole : (usec - 1) / 1000 +
      ((usec + t.usec_per_tick.toNat - 1) / 1000 - (usec - 1) / 1000) =
      (usec + t.usec_per_tick.toNat - 1) / 1000 := by omega
  have ticks := steady.clock.tick (by omega) (by rw [whole]; omega) passed
  rw [whole] at ticks
  rw [timerUpdateUsec_short short]
  exact ⟨⟨ticks.1, rest⟩, ticks.2⟩

theorem UsecTimer.first {u : ULong} (short : u.toNat ≤ 100000) :
    (timerUpdateUsec (.initial u)).1 = true ∧
      (timerUpdateUsec (.initial u)).2.Steady u.toNat := by
  have zero : (0 : ULong).toNat = 0 := rfl
  have same : 0 + u = u := BitVec.zero_add u
  obtain ⟨millis, usecs⟩ := carryUsec_toNat 0 u (by rw [zero]; omega)
  rw [zero, Nat.zero_add] at millis
  have first := @Clock.first (carryUsec 0 u).1 (by omega)
  rw [timerUpdateUsec_short short]
  dsimp only [UsecTimer.initial]
  rw [same]
  rw [millis] at first
  exact ⟨first.1, first.2, usecs⟩

theorem steady_ticked_usec (short : u.toNat ≤ 100000)
    (fits : (k + 1) * u.toNat < 2 ^ 32 * msecPerDay * 1000) :
    (ticked timerUpdateUsec (.initial u) (k + 1)).Steady ((k + 1) * u.toNat) := by
  induction k with
  | zero =>
    rw [zero_add, one_mul]
    exact (UsecTimer.first short).2
  | succ k ih =>
    rw [Nat.succ_mul] at fits ⊢
    have ticks := (ih (by omega)).tick (by rwa [usec_per_tick_ticked])
      (by rwa [usec_per_tick_ticked])
    rw [usec_per_tick_ticked] at ticks
    rw [ticked_succ]
    exact ticks.1

theorem steady_due_usec (short : u.toNat ≤ 100000)
    (fits : (k + 1) * u.toNat < 2 ^ 32 * msecPerDay * 1000) :
    dueAt timerUpdateUsec (.initial u) k ↔
      k = 0 ∨ (k * u.toNat - 1) / 1000 / 100 < ((k + 1) * u.toNat - 1) / 1000 / 100 := by
  cases k with
  | zero => exact iff_of_true (UsecTimer.first short).1 (.inl rfl)
  | succ k =>
    rw [Nat.succ_mul (k + 1)] at fits ⊢
    have ticks := (steady_ticked_usec short (k := k) (by omega)).tick
      (by rwa [usec_per_tick_ticked]) (by rwa [usec_per_tick_ticked])
    rw [usec_per_tick_ticked] at ticks
    rw [dueAt, ticks.2]
    exact (or_iff_right (Nat.succ_ne_zero k)).symm

/-- With `USEC_TIMER`. -/
theorem noDrift_usec_iff (short : u.toNat ≤ 100000) (n : Nat) :
    NoDrift timerUpdateUsec (.initial u) UsecTimer.Shows 100000 u.toNat n ↔
      n * u.toNat < 2 ^ 32 * msecPerDay * 1000 ∧
        ∀ k ≤ n, 1000 ∣ k * u.toNat → k * u.toNat = 0 := by
  constructor
  · intro exact
    have fits : n * u.toNat < 2 ^ 32 * msecPerDay * 1000 := by
      obtain ⟨total, below, rest⟩ := exact.time n le_rfl
      have := (ticked timerUpdateUsec (.initial u) n).days.isLt
      rw [← total]
      rw [msecPerDay] at below ⊢
      omega
    refine ⟨fits, fun k le whole => ?_⟩
    obtain ⟨total, below, rest⟩ := exact.time k le
    cases k with
    | zero => exact Nat.zero_mul _
    | succ k =>
      have steady := steady_ticked_usec short ((Nat.mul_le_mul_right _ le).trans_lt fits)
      have := steady.rest
      omega
  · rintro ⟨fits, apart⟩
    have fits : ∀ k ≤ n, k * u.toNat < 2 ^ 32 * msecPerDay * 1000 := fun k le =>
      (Nat.mul_le_mul_right _ le).trans_lt fits
    have floor : ∀ k ≤ n, (k * u.toNat - 1) / 1000 = k * u.toNat / 1000 := by
      intro k le
      have := apart k le
      omega
    apply noDrift_of_due (by decide) short
    · intro k le
      cases k with
      | zero =>
        have clock := @Clock.Level.shows (ticked timerUpdateUsec (.initial u) 0).toClock 0
          ⟨rfl, rfl, rfl⟩ (by decide)
        rw [Nat.zero_mul]
        exact ⟨by rw [clock.total]; rfl, clock.below, show (0 : ULong).toNat < 1000 by decide⟩
      | succ k =>
        have steady := steady_ticked_usec short (fits _ le)
        obtain ⟨total, below⟩ := steady.clock.shows
        have rest := steady.rest
        have := apart _ le
        exact ⟨by rw [total, rest]; omega, below, by rw [rest]; omega⟩
    · intro k le
      rw [steady_due_usec short (fits _ le), floor k (Nat.le_of_lt le), floor (k + 1) le,
        Nat.div_div_eq_div_mul, Nat.div_div_eq_div_mul]

/-- In both builds the clock does not drift if and only if the days do not overflow and a counter is
never left behind: `next_decisec` at the end of a day of ticks of 100 milliseconds, and 1000
microseconds that are a whole millisecond. -/
theorem clock_exact_iff {m u : ULong} (msecs : m.toNat ≤ 100) (usecs : u.toNat ≤ 100000) (n : Nat) :
    (NoDrift timerUpdate (.initial m) (fun t => t.toClock.Shows) 100 m.toNat n ↔
      n * m.toNat < 2 ^ 32 * msecPerDay ∧ (m.toNat = 100 → n * m.toNat < msecPerDay)) ∧
    (NoDrift timerUpdateUsec (.initial u) UsecTimer.Shows 100000 u.toNat n ↔
      n * u.toNat < 2 ^ 32 * msecPerDay * 1000 ∧
        ∀ k ≤ n, 1000 ∣ k * u.toNat → k * u.toNat = 0) :=
  ⟨noDrift_iff msecs n, noDrift_usec_iff usecs n⟩

/-- A year of ticks of 10 milliseconds, and 100 ticks of 64 microseconds. -/
theorem clock_exact_year :
    NoDrift timerUpdate (.initial 10) (fun t => t.toClock.Shows) 100 10 (365 * 8640000) ∧
      NoDrift timerUpdateUsec (.initial 64) UsecTimer.Shows 100000 64 100 := by
  have exact := @clock_exact_iff 10 64 (by decide) (by decide)
  refine ⟨(exact _).1.mpr ⟨by decide, by decide⟩, (exact _).2.mpr ⟨by decide, ?_⟩⟩
  decide

/-- With ticks of 100 milliseconds `decisec` is not due at the end of the first day; with
`USEC_TIMER` and ticks of one millisecond, 1000 microseconds are left. -/
theorem clock_drifts :
    ¬NoDrift timerUpdate (.initial 100) (fun t => t.toClock.Shows) 100 100 864000 ∧
      ¬NoDrift timerUpdateUsec (.initial 1000) UsecTimer.Shows 100000 1000 1 := by
  constructor
  · intro exact
    have due := exact.due 863999 (by decide)
    exact level_last rfl (by decide) (due.mpr (by decide))
  · intro exact
    have rest := (exact.time 1 le_rfl).rest
    have left := (UsecTimer.first (u := 1000) (by decide)).2.rest
    have first : ticked timerUpdateUsec (.initial 1000) 1 =
        (timerUpdateUsec (.initial 1000)).2 := rfl
    rw [first, left] at rest
    exact absurd rest (by decide)

end Uos
