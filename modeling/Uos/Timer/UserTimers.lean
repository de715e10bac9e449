import Uos.Kernel.Progress
import Uos.Timer.Clock

/-!
# User timers

The end of `timer_update` of `timer/timer.c` with `USER_TIMERS`: it counts down the time of each
user timer, and activates its lock when the time is up.  The tasks and the groups are those of the
kernel.
-/

namespace Uos

open List Option

theorem State.mutexActivate_others {s s' : State} {m : MutexId} {message : Message}
    (result : s.mutexActivate m message = some s') :
    s'.listeners = s.listeners ∧ ∀ n ≠ m, s'.waiters n = s.waiters n := by
  simp only [State.mutexActivate] at result
  obtain ⟨middle, first, second⟩ := bind_eq_some_iff.mp result
  obtain ⟨rfl, -⟩ := wakeWaiters_eq first
  refine foldlM_invariant
    (fun x => x.listeners = s.listeners ∧ ∀ n ≠ m, x.waiters n = s.waiters n)
    (fun slot _ x x' kept turn => ?_) ⟨rfl, fun n other => ?_⟩ second
  · simp only [notifySlot] at turn
    split at turn
    · split at turn
      · cases turn
        exact kept
      · split at turn
        · contradiction
        · rename_i t _ unlinked
          obtain ⟨-, -, rfl⟩ := taskActivate_eq turn
          have free : x.queues.place t = none :=
            LinkedLists.linked_eq_false.mp (Bool.eq_false_of_not_eq_true unlinked)
          refine ⟨kept.1, fun n other => ?_⟩
          rw [← kept.2 n other]
          exact x.queues.nodes_append_of_ne (by simp) (by simp [free])
    · contradiction
  · refine s.queues.nodes_appendAll_of_ne (by simp) fun t waits => ?_
    have waits : t ∈ s.queues.nodes (.waiters m) := waits
    rw [s.queues.mem_nodes.mp waits]
    simpa using Ne.symm other

theorem State.mutexActivate_alert {s s' : State} (alert : s.Alert) {m : MutexId} {message : Message}
    (result : s.mutexActivate m message = some s') : s'.Alert := by
  obtain ⟨last, succeeds, alert'⟩ := mutexActivate_succeeds alert m message
  rwa [Option.some.inj (result.symm.trans succeeds)]

/-- The locks as the timer finds them. -/
structure Locks where
  kernel : State
  /-- The tasks and slots that wait can be activated. -/
  alert : kernel.Alert
  /-- Whether `mutex_init` was called for the lock. -/
  ready : MutexId → Bool
  unused : ∀ m, ready m = false → kernel.waiters m = [] ∧ kernel.listeners.nodes m = []

namespace Locks

/-- `! list_is_empty (&m->waiters)`: the head of a list that was never initialised does not point to
itself. -/
def hasWaiters (l : Locks) (m : MutexId) : Bool :=
  !l.ready m || !(l.kernel.waiters m).isEmpty

/-- `! list_is_empty (&m->groups)` -/
def hasGroups (l : Locks) (m : MutexId) : Bool :=
  !l.ready m || !(l.kernel.listeners.nodes m).isEmpty

/-- `mutex_activate`, which initialises a lock that was never used. -/
def activate (l : Locks) (m : MutexId) (message : Message) : Option Locks :=
  if used : l.ready m = true then
    match result : l.kernel.mutexActivate m message with
    | none => none
    | some kernel =>
      some
        { kernel, ready := l.ready
          alert := State.mutexActivate_alert l.alert result
          unused := fun n fresh => by
            obtain ⟨groups, waiters⟩ := State.mutexActivate_others result
            have other : n ≠ m := by
              rintro rfl
              exact Bool.false_ne_true (fresh.symm.trans used)
            rw [groups, waiters n other]
            exact l.unused n fresh }
  else
    some
      { kernel := l.kernel.observe (.activated m message)
        ready := Function.update l.ready m true
        alert := l.alert.congr (fun _ => rfl) (fun _ => rfl) rfl rfl rfl rfl
        unused := fun n fresh => by
          rw [Function.update_apply] at fresh
          split_ifs at fresh
          exact l.unused n fresh }

def activations (l : Locks) (m : MutexId) : Nat :=
  l.kernel.trace.countP fun observation =>
    match observation with
    | .activated n _ => n = m
    | _ => false

/-- The lock is as it was. -/
structure Same (m : MutexId) (l l' : Locks) : Prop where
  waiters : l'.hasWaiters m = l.hasWaiters m
  groups : l'.hasGroups m = l.hasGroups m
  activations : l'.activations m = l.activations m

theorem Same.refl (m : MutexId) (l : Locks) : Same m l l :=
  ⟨rfl, rfl, rfl⟩

variable {m : MutexId} {l l' : Locks}

theorem Same.trans {l'' : Locks} (first : Same m l l') (second : Same m l' l'') :
    Same m l l'' :=
  ⟨second.waiters.trans first.waiters, second.groups.trans first.groups,
    second.activations.trans first.activations⟩

/-- What `mutex_activate` leaves. -/
structure Activates (m : MutexId) (l l' : Locks) : Prop where
  others : ∀ n ≠ m, Same n l l'
  once : l'.activations m = l.activations m + 1
  groups : l'.hasGroups m = !(l'.kernel.listeners.nodes m).isEmpty
  listeners : l'.kernel.listeners = l.kernel.listeners

theorem activations_append {n : MutexId} {message : Message}
    (trace : l'.kernel.trace = l.kernel.trace ++ [.activated n message]) (m : MutexId) :
    l'.activations m = l.activations m + if n = m then 1 else 0 := by
  rw [activations, activations, trace, countP_append, countP_singleton]
  simp only [decide_eq_true_eq]

theorem activate_eq {message : Message} (result : l.activate m message = some l') :
    l'.kernel.trace = l.kernel.trace ++ [.activated m message] ∧
      l'.kernel.listeners = l.kernel.listeners ∧
      (∀ n ≠ m, l'.kernel.waiters n = l.kernel.waiters n) ∧
      l'.ready = Function.update l.ready m true := by
  rw [activate] at result
  split at result
  · rename_i used
    split at result
    · contradiction
    · rename_i kernel activated
      cases result
      obtain ⟨groups, waiters⟩ := State.mutexActivate_others activated
      refine ⟨(State.mutexActivate_trace activated).1, groups, waiters, ?_⟩
      exact (Function.update_eq_self_iff.mpr used.symm).symm
  · cases result
    exact ⟨rfl, rfl, fun _ _ => rfl, rfl⟩

/-- No assertion of `mutex_activate` fails. -/
theorem activate_succeeds (l : Locks) (m : MutexId) (message : Message) :
    ∃ l', l.activate m message = some l' := by
  rw [activate]
  split
  · split
    · rename_i failed
      obtain ⟨_, succeeds, -⟩ := State.mutexActivate_succeeds l.alert m message
      rw [failed] at succeeds
      contradiction
    · exact ⟨_, rfl⟩
  · exact ⟨_, rfl⟩

theorem activate_activates {message : Message} (result : l.activate m message = some l') :
    Activates m l l' := by
  obtain ⟨trace, listeners, waiters, ready⟩ := activate_eq result
  refine ⟨fun n other => ⟨?_, ?_, ?_⟩, ?_, ?_, listeners⟩
  · rw [hasWaiters, hasWaiters, ready, Function.update_of_ne other, waiters n other]
  · rw [hasGroups, hasGroups, ready, Function.update_of_ne other, listeners]
  · rw [activations_append trace, if_neg other.symm, Nat.add_zero]
  · rw [activations_append trace, if_pos rfl]
  · rw [hasGroups, ready, Function.update_self, Bool.not_true, Bool.false_or]

end Locks

/-- A `user_timer_t`: its period has the unit of the ticks of the timer, `cur_time` is signed. -/
structure UserTimer where
  lock : MutexId
  per_tick : ULong
  cur_time : ULong

/-- `user_timer_init`, and `user_timer_init_us` with `USEC_TIMER`. -/
def userTimerInit (lock : MutexId) (per_tick : ULong) : UserTimer :=
  { lock, per_tick, cur_time := per_tick }

/-- One of the two builds of the timer. -/
structure TimerBuild (Timer : Type) where
  /-- The part of `timer_update` before the user timers, and whether `decisec` is due. -/
  update : Timer → Bool × Timer
  /-- The time of a tick. -/
  per_tick : Timer → ULong
  milliseconds : Timer → ULong
  per_tick_update : ∀ t, per_tick (update t).2 = per_tick t

/-- Without `USEC_TIMER`. -/
def msecBuild : TimerBuild Timer where
  update := timerUpdate
  per_tick t := t.msec_per_tick
  milliseconds t := t.milliseconds
  per_tick_update _ := rfl

/-- With `USEC_TIMER`. -/
def usecBuild : TimerBuild UsecTimer where
  update := timerUpdateUsec
  per_tick t := t.usec_per_tick
  milliseconds t := t.milliseconds
  per_tick_update _ := rfl

/-- A `timer_t` with `USER_TIMERS`. -/
structure UserTimers (Timer : Type) where
  timer : Timer
  decisec : MutexId
  user_timers : List UserTimer := []

/-- `user_timer_add` -/
def userTimerAdd {Timer : Type} (t : UserTimers Timer) (ut : UserTimer) : UserTimers Timer :=
  { t with user_timers := t.user_timers ++ [ut] }

section Update

variable (tick : ULong) (message : Message) (decisec : MutexId)

/-- What `timer_update` does with one user timer. -/
def UserTimer.update (l : Locks) (ut : UserTimer) : Option (Locks × UserTimer) :=
  let ut := { ut with cur_time := ut.cur_time - tick }
  if ut.cur_time.sle 0 then
    if l.hasWaiters ut.lock || l.hasGroups decisec then
      (l.activate ut.lock message).map fun l =>
        (l, { ut with cur_time := ut.cur_time + ut.per_tick })
    else some (l, ut)
  else some (l, ut)

def updateUserTimers (l : Locks) : List UserTimer → Option (Locks × List UserTimer)
  | [] => some (l, [])
  | ut :: rest => do
    let (l, ut) ← ut.update tick message decisec l
    let (l, rest) ← updateUserTimers l rest
    return (l, ut :: rest)

end Update

/-- The part of `timer_update` that signals `decisec`. -/
def signalDecisec (decisec : MutexId) (due : Bool) (message : Message) (l : Locks) :
    Option Locks :=
  if due then
    if l.hasWaiters decisec || l.hasGroups decisec then l.activate decisec message
    else some l
  else some l

/-- `timer_update` with `USER_TIMERS`. -/
def userTimerUpdate {Timer : Type} (build : TimerBuild Timer) (l : Locks) (t : UserTimers Timer) :
    Option (Locks × UserTimers Timer) := do
  let (due, timer) := build.update t.timer
  let message := (build.milliseconds timer).toNat
  let l ← signalDecisec t.decisec due message l
  let (l, user_timers) ←
    updateUserTimers (build.per_tick timer) message t.decisec l t.user_timers
  return (l, { t with timer, user_timers })

namespace UserTimer

def fires (tick : ULong) (seen : Bool) (ut : UserTimer) : Bool :=
  (ut.cur_time - tick).sle 0 && seen

def after (tick : ULong) (fires : Bool) (ut : UserTimer) : UserTimer :=
  { ut with cur_time := ut.cur_time - tick + if fires then ut.per_tick else 0 }

end UserTimer

/-- What the code takes for the question whether anybody waits for the lock of a user timer. -/
def Locks.seen (l : Locks) (decisec lock : MutexId) : Bool :=
  l.hasWaiters lock || l.hasGroups decisec

section Spec

variable {tick : ULong} {message : Message} {decisec : MutexId}

theorem UserTimer.update_spec {l l' : Locks} {ut ut' : UserTimer}
    (result : ut.update tick message decisec l = some (l', ut')) :
    ut' = ut.after tick (ut.fires tick (l.seen decisec ut.lock)) ∧
      (∀ n ≠ ut.lock, l.Same n l') ∧
      l'.activations ut.lock =
        l.activations ut.lock + (ut.fires tick (l.seen decisec ut.lock)).toNat := by
  rw [update] at result
  dsimp only at result
  rw [fires, Locks.seen]
  split_ifs at result with elapsed seen
  · obtain ⟨left, activated, same⟩ := map_eq_some_iff.mp result
    obtain ⟨rfl, rfl⟩ := Prod.mk.inj same
    obtain ⟨others, once, -, -⟩ := Locks.activate_activates activated
    rw [elapsed, seen]
    exact ⟨rfl, others, once⟩
  · obtain ⟨rfl, rfl⟩ := Prod.mk.inj (Option.some.inj result)
    rw [Bool.eq_false_of_not_eq_true seen, Bool.and_false]
    exact ⟨by simp [after], fun n _ => .refl n l, rfl⟩
  · obtain ⟨rfl, rfl⟩ := Prod.mk.inj (Option.some.inj result)
    rw [Bool.eq_false_of_not_eq_true elapsed, Bool.false_and]
    exact ⟨by simp [after], fun n _ => .refl n l, rfl⟩

theorem Locks.Same.seen {l l' : Locks} {lock : MutexId} (same : l.Same lock l')
    (same_decisec : l.Same decisec l') : l'.seen decisec lock = l.seen decisec lock := by
  rw [Locks.seen, Locks.seen, same.waiters, same_decisec.groups]

theorem UserTimer.update_succeeds (tick : ULong) (message : Message) (decisec : MutexId) (l : Locks)
    (ut : UserTimer) :
    ∃ l' ut', ut.update tick message decisec l = some (l', ut') ∧ ut'.lock = ut.lock := by
  rw [update]
  dsimp only
  split_ifs
  · obtain ⟨l', activated⟩ := l.activate_succeeds ut.lock message
    rw [activated]
    exact ⟨_, _, rfl, rfl⟩
  · exact ⟨_, _, rfl, rfl⟩
  · exact ⟨_, _, rfl, rfl⟩

theorem updateUserTimers_succeeds (tick : ULong) (message : Message) (decisec : MutexId) (l : Locks)
    (uts : List UserTimer) :
    ∃ l' uts', updateUserTimers tick message decisec l uts = some (l', uts') ∧
      uts'.map (·.lock) = uts.map (·.lock) := by
  induction uts generalizing l with
  | nil => exact ⟨l, [], rfl, rfl⟩
  | cons first rest ih =>
    obtain ⟨middle, first', turn, same⟩ :=
      first.update_succeeds tick message decisec l
    obtain ⟨l', rest', loop, locks⟩ := ih middle
    refine ⟨l', first' :: rest', ?_, ?_⟩
    · rw [updateUserTimers, turn, bind_eq_bind, bind_some]
      dsimp only
      rw [loop]
      rfl
    · rw [map_cons, map_cons, same, locks]

theorem updateUserTimers_spec {uts uts' : List UserTimer} {l l' : Locks}
    (apart : (decisec :: uts.map (·.lock)).Nodup)
    (result : updateUserTimers tick message decisec l uts = some (l', uts')) :
    (∀ n ∉ uts.map (·.lock), l.Same n l') ∧
      ∀ ut ∈ uts, ut.after tick (ut.fires tick (l.seen decisec ut.lock)) ∈ uts' ∧
        l'.activations ut.lock =
          l.activations ut.lock + (ut.fires tick (l.seen decisec ut.lock)).toNat := by
  induction uts generalizing l uts' with
  | nil =>
    obtain ⟨rfl, rfl⟩ := Prod.mk.inj (Option.some.inj result)
    exact ⟨fun n _ => .refl n l, fun ut member => absurd member not_mem_nil⟩
  | cons first rest ih =>
    obtain ⟨⟨middle, first'⟩, turn, result⟩ := bind_eq_some_iff.mp result
    obtain ⟨⟨last, rest'⟩, loop, result⟩ := bind_eq_some_iff.mp result
    obtain ⟨rfl, rfl⟩ := Prod.mk.inj (Option.some.inj result)
    rw [map_cons, nodup_cons, nodup_cons, mem_cons, not_or] at apart
    obtain ⟨⟨not_first, not_rest⟩, first_apart, rest_apart⟩ := apart
    obtain ⟨after_first, others, counted⟩ := UserTimer.update_spec turn
    obtain ⟨kept, each⟩ := ih (nodup_cons.mpr ⟨not_rest, rest_apart⟩) loop
    refine ⟨fun n absent => ?_, fun ut member => ?_⟩
    · rw [map_cons, mem_cons, not_or] at absent
      exact (others n absent.1).trans (kept n absent.2)
    · rcases mem_cons.mp member with rfl | member
      · rw [(kept _ first_apart).activations, counted]
        exact ⟨after_first ▸ mem_cons_self, rfl⟩
      · have lock_ne : ut.lock ≠ first.lock := by
          intro same
          exact first_apart (same ▸ List.mem_map_of_mem member)
        have same := others ut.lock lock_ne
        obtain ⟨found, count⟩ := each ut member
        rw [same.seen (others decisec not_first)] at found count
        rw [same.activations] at count
        exact ⟨mem_cons_of_mem _ found, count⟩

end Spec

section Update

variable {Timer : Type} {build : TimerBuild Timer}

/-- What the code takes for the question whether anybody waits for the lock, before the tick:
a `decisec` that was never initialised is so when it is due. -/
def UserTimers.seen (build : TimerBuild Timer) (t : UserTimers Timer) (l : Locks)
    (lock : MutexId) : Bool :=
  l.hasWaiters lock || !(l.kernel.listeners.nodes t.decisec).isEmpty ||
    !l.ready t.decisec && !(build.update t.timer).1

theorem signalDecisec_spec {l middle : Locks} {t : UserTimers Timer} {message : Message}
    {lock : MutexId} (other : lock ≠ t.decisec)
    (result : signalDecisec t.decisec (build.update t.timer).1 message l = some middle) :
    l.Same lock middle ∧ middle.seen t.decisec lock = t.seen build l lock := by
  rw [Locks.seen, UserTimers.seen]
  rw [signalDecisec] at result
  split_ifs at result with due seen
  · obtain ⟨others, -, groups, listeners⟩ := Locks.activate_activates result
    have same := others lock other
    refine ⟨same, ?_⟩
    rw [groups, listeners, same.waiters, due, Bool.not_true, Bool.and_false, Bool.or_false]
  · cases result
    refine ⟨.refl lock l, ?_⟩
    rw [due, Bool.not_true, Bool.and_false, Bool.or_false]
    rw [Locks.hasWaiters, Locks.hasGroups] at seen
    rw [Locks.hasGroups]
    cases ready : l.ready t.decisec with
    | true => rfl
    | false =>
      rw [ready] at seen
      exact absurd rfl seen
  · cases result
    refine ⟨.refl lock l, ?_⟩
    rw [Bool.eq_false_of_not_eq_true due, Bool.not_false, Bool.and_true, Bool.or_assoc,
      Locks.hasGroups, Bool.or_comm (!l.ready t.decisec)]

theorem userTimerUpdate_spec {l l' : Locks} {t t' : UserTimers Timer}
    (apart : (t.decisec :: t.user_timers.map (·.lock)).Nodup)
    (result : userTimerUpdate build l t = some (l', t')) :
    t'.timer = (build.update t.timer).2 ∧
      ∀ ut ∈ t.user_timers,
        let tick := build.per_tick t.timer
        let fires := ut.fires tick (t.seen build l ut.lock)
        ut.after tick fires ∈ t'.user_timers ∧
          l'.activations ut.lock = l.activations ut.lock + fires.toNat := by
  simp only [userTimerUpdate] at result
  obtain ⟨middle, signal, result⟩ := bind_eq_some_iff.mp result
  obtain ⟨⟨last, user_timers⟩, loop, result⟩ := bind_eq_some_iff.mp result
  obtain ⟨rfl, rfl⟩ := Prod.mk.inj (Option.some.inj result)
  rw [build.per_tick_update] at loop
  obtain ⟨-, each⟩ := updateUserTimers_spec apart loop
  refine ⟨rfl, fun ut member => ?_⟩
  have other : ut.lock ≠ t.decisec := by
    intro same
    exact (nodup_cons.mp apart).1 (same ▸ List.mem_map_of_mem member)
  have same := signalDecisec_spec other signal
  obtain ⟨found, count⟩ := each ut member
  rw [same.2] at found count
  rw [same.1.activations] at count
  exact ⟨found, count⟩

theorem userTimerUpdate_succeeds (build : TimerBuild Timer) (l : Locks) (t : UserTimers Timer) :
    ∃ l' t', userTimerUpdate build l t = some (l', t') ∧ t'.decisec = t.decisec ∧
      t'.user_timers.map (·.lock) = t.user_timers.map (·.lock) := by
  obtain ⟨middle, signal⟩ : ∃ middle, signalDecisec t.decisec (build.update t.timer).1
      (build.milliseconds (build.update t.timer).2).toNat l = some middle := by
    rw [signalDecisec]
    split_ifs
    · exact l.activate_succeeds _ _
    · exact ⟨l, rfl⟩
    · exact ⟨l, rfl⟩
  obtain ⟨l', uts', loop, locks⟩ := updateUserTimers_succeeds
    (build.per_tick (build.update t.timer).2)
    (build.milliseconds (build.update t.timer).2).toNat t.decisec middle t.user_timers
  refine ⟨l', { t with timer := (build.update t.timer).2, user_timers := uts' }, ?_, rfl, locks⟩
  simp only [userTimerUpdate]
  rw [signal, bind_eq_bind, bind_some, loop]
  rfl

end Update

section Period

/-- At the tick behind `k` ticks the code is right about the end of the period: if it is over, the
signed remainder does not overflow and somebody is taken to wait; if it is not, the remainder is not
taken for a negative number, or nobody is. -/
def SeesPeriod (tick period k : Nat) (seen : Bool) : Prop :=
  if k * tick / period < (k + 1) * tick / period then
    seen = true ∧ k * tick % period + tick ≤ period + 2 ^ 31
  else seen = true → period < k * tick % period + tick + 2 ^ 31

theorem succ_mul_period {tick period : Nat} (positive : 0 < period) (le : tick ≤ period) (k : Nat) :
    (k + 1) * tick / period =
        k * tick / period + (decide (period ≤ k * tick % period + tick)).toNat ∧
      (k + 1) * tick % period =
        k * tick % period + tick - period * (decide (period ≤ k * tick % period + tick)).toNat := by
  have whole := Nat.div_add_mod (k * tick) period
  have rest := Nat.mod_lt (k * tick) positive
  generalize k * tick / period = periods at whole ⊢
  generalize k * tick % period = r at whole rest ⊢
  have split : (k + 1) * tick = r + tick + period * periods := by
    rw [Nat.succ_mul]
    omega
  rw [split, Nat.add_mul_div_left _ _ positive, Nat.add_mul_mod_self_left]
  rcases Nat.lt_or_ge (r + tick) period with less | elapsed
  · rw [decide_eq_false less.not_ge, Nat.div_eq_of_lt less, Nat.mod_eq_of_lt less]
    exact ⟨Nat.zero_add _, rfl⟩
  · have less : r + tick - period < period := by omega
    rw [decide_eq_true elapsed, Nat.div_eq_sub_div positive elapsed, Nat.mod_eq_sub_mod elapsed,
      Nat.div_eq_of_lt less, Nat.mod_eq_of_lt less]
    exact ⟨Nat.add_comm .., by rw [Bool.toNat_true, Nat.mul_one]⟩

theorem remainder_sle {tick : ULong} {rest : Nat} (positive : 0 < rest) (fits : rest < 2 ^ 32) :
    (.ofNat 32 rest - tick).sle 0 = true ↔
      if rest ≤ tick.toNat then tick.toNat ≤ rest + 2 ^ 31 else tick.toNat + 2 ^ 31 ≤ rest := by
  have zero : (0 : ULong).toInt = 0 := rfl
  have small := tick.isLt
  have value : (BitVec.ofNat 32 rest - tick).toNat =
      if rest ≤ tick.toNat then (2 ^ 32 + rest - tick.toNat) % 2 ^ 32 else rest - tick.toNat := by
    split_ifs <;> bv_omega
  rw [BitVec.sle_iff_toInt_le, zero, BitVec.toInt_eq_toNat_cond, value]
  split_ifs <;> omega

/-- Where the timer has counted right so far, it fires when it should if and only if the code is
right about the end of the period. -/
theorem fires_eq_iff {tick : ULong} {period k : Nat} (positive : 0 < period)
    (fits : period < 2 ^ 32) (le : tick.toNat ≤ period) {ut : UserTimer}
    (counted : ut.cur_time = .ofNat 32 (period - k * tick.toNat % period)) (seen : Bool) :
    ut.fires tick seen = decide (period ≤ k * tick.toNat % period + tick.toNat) ↔
      SeesPeriod tick.toNat period k seen := by
  have rest := Nat.mod_lt (k * tick.toNat) positive
  have due : k * tick.toNat / period < (k + 1) * tick.toNat / period ↔
      period ≤ k * tick.toNat % period + tick.toNat := by
    rw [(succ_mul_period positive le k).1]
    rcases Nat.lt_or_ge (k * tick.toNat % period + tick.toNat) period with less | elapsed
    · rw [decide_eq_false less.not_ge]
      exact iff_of_false (lt_irrefl _) less.not_ge
    · rw [decide_eq_true elapsed]
      exact iff_of_true (Nat.lt_succ_self _) elapsed
  simp only [SeesPeriod, due]
  generalize k * tick.toNat % period = r at counted rest ⊢
  have read := @remainder_sle tick (period - r) (by omega) (by omega)
  rw [UserTimer.fires, counted]
  cases seen with
  | false =>
    rw [Bool.and_false]
    split_ifs with elapsed
    · simp [elapsed]
    · simp [elapsed]
  | true =>
    rw [Bool.and_true, Bool.eq_iff_iff, read, decide_eq_true_iff]
    simp only [true_and, forall_const]
    clear due
    split_ifs <;> omega

end Period

/-- A run of calls of `timer_update`.  Between two of them the tasks do what they want, and add user
timers. -/
structure UserRun {Timer : Type} (build : TimerBuild Timer) where
  /-- What each call finds, and what it leaves. -/
  found : Nat → Locks
  left : Nat → Locks
  timer : Nat → UserTimers Timer
  added : Nat → List UserTimer
  /-- Each user timer has a lock of its own. -/
  apart : ∀ k, ((timer k).decisec :: (timer k).user_timers.map (·.lock)).Nodup
  update : ∀ k, ∃ t, userTimerUpdate build (found k) (timer k) = some (left k, t) ∧
    timer (k + 1) = (added k).foldl userTimerAdd t

namespace UserRun

variable {Timer : Type} {build : TimerBuild Timer} (run : UserRun build)

def tick : ULong :=
  build.per_tick (run.timer 0).timer

/-- What the code takes at a tick for the question whether anybody waits for the lock. -/
def seen (lock : MutexId) (k : Nat) : Bool :=
  (run.timer k).seen build (run.found k) lock

/-- How often `timer_update` activates the lock in so many ticks. -/
def fired (lock : MutexId) : Nat → Nat
  | 0 => 0
  | n + 1 => fired lock n + ((run.left n).activations lock - (run.found n).activations lock)

theorem foldl_userTimerAdd (t : UserTimers Timer) (added : List UserTimer) :
    added.foldl userTimerAdd t = { t with user_timers := t.user_timers ++ added } := by
  induction added generalizing t with
  | nil => simp
  | cons first rest ih =>
    rw [foldl_cons, ih]
    simp [userTimerAdd]

theorem per_tick_eq (k : Nat) : build.per_tick (run.timer k).timer = run.tick := by
  induction k with
  | zero => rfl
  | succ k ih =>
    obtain ⟨t, update, next⟩ := run.update k
    rw [next, foldl_userTimerAdd, (userTimerUpdate_spec (run.apart k) update).1,
      build.per_tick_update, ih]

theorem tick_spec {k : Nat} {ut : UserTimer} (member : ut ∈ (run.timer k).user_timers) :
    let fires := ut.fires run.tick (run.seen ut.lock k)
    ut.after run.tick fires ∈ (run.timer (k + 1)).user_timers ∧
      (run.left k).activations ut.lock = (run.found k).activations ut.lock + fires.toNat := by
  obtain ⟨t, update, next⟩ := run.update k
  obtain ⟨found, count⟩ := (userTimerUpdate_spec (run.apart k) update).2 ut member
  rw [run.per_tick_eq] at found count
  rw [next, foldl_userTimerAdd]
  exact ⟨mem_append_left _ found, count⟩

/-- The user timer has counted right: it holds what is left of its period. -/
def Counts (lock : MutexId) (period : ULong) (k : Nat) : Prop :=
  ∃ ut ∈ (run.timer k).user_timers, ut.lock = lock ∧ ut.per_tick = period ∧
    ut.cur_time = .ofNat 32 (period.toNat - k * run.tick.toNat % period.toNat)

section Counts

variable {lock : MutexId} {period : ULong} (positive : 0 < period.toNat)
include positive

/-- A timer that has counted right goes on so, and is activated when its period is over, if and only
if the code is right about that. -/
theorem counts_succ {run : UserRun build} (le : run.tick.toNat ≤ period.toNat) {k : Nat}
    (counts : run.Counts lock period k) :
    ((run.left k).activations lock - (run.found k).activations lock =
        (k + 1) * run.tick.toNat / period.toNat - k * run.tick.toNat / period.toNat ↔
      SeesPeriod run.tick.toNat period.toNat k (run.seen lock k)) ∧
    (SeesPeriod run.tick.toNat period.toNat k (run.seen lock k) →
      run.Counts lock period (k + 1)) := by
  obtain ⟨ut, member, rfl, rfl, counted⟩ := counts
  obtain ⟨found, count⟩ := run.tick_spec member
  obtain ⟨whole, rest⟩ := succ_mul_period positive le k
  have right := fires_eq_iff positive ut.per_tick.isLt le counted (run.seen ut.lock k)
  refine ⟨?_, fun sees => ⟨_, found, rfl, rfl, ?_⟩⟩
  · rw [← right, count, whole, Nat.add_sub_cancel_left, Nat.add_sub_cancel_left]
    refine ⟨fun same => ?_, congrArg Bool.toNat⟩
    rw [Bool.eq_iff_iff, ← Bool.toNat_eq_one, ← Bool.toNat_eq_one, same]
  · have less := Nat.mod_lt (k * run.tick.toNat) positive
    have small := ut.per_tick.isLt
    rw [UserTimer.after, right.mpr sees, rest, counted]
    dsimp only
    generalize k * run.tick.toNat % ut.per_tick.toNat = r at less ⊢
    rcases Nat.lt_or_ge (r + run.tick.toNat) ut.per_tick.toNat with within | elapsed
    · rw [decide_eq_false within.not_ge]
      simp only [Bool.toNat_false, Bool.false_eq_true, if_false]
      bv_omega
    · rw [decide_eq_true elapsed]
      simp only [Bool.toNat_true, if_true]
      bv_omega

end Counts

/-- A new user timer is activated as often as its period fits into the ticks, throughout a run of so
many of them, if and only if the code is right about the end of the period at each. -/
theorem fired_iff {lock : MutexId} {period : ULong} (positive : 0 < period.toNat)
    (le : run.tick.toNat ≤ period.toNat)
    (new : userTimerInit lock period ∈ (run.timer 0).user_timers) (N : Nat) :
    (∀ n ≤ N, run.fired lock n = n * run.tick.toNat / period.toNat) ↔
      ∀ k < N, SeesPeriod run.tick.toNat period.toNat k (run.seen lock k) := by
  have start : run.Counts lock period 0 := by
    refine ⟨_, new, rfl, rfl, ?_⟩
    rw [Nat.zero_mul, Nat.zero_mod, Nat.sub_zero, BitVec.ofNat_toNat, BitVec.setWidth_eq]
    rfl
  have grows : ∀ k, k * run.tick.toNat / period.toNat ≤ (k + 1) * run.tick.toNat / period.toNat :=
    fun k => Nat.div_le_div_right (Nat.mul_le_mul_right _ (Nat.le_succ k))
  constructor
  · intro exact
    have sees : ∀ {k}, k < N → run.Counts lock period k →
        SeesPeriod run.tick.toNat period.toNat k (run.seen lock k) := by
      intro k below counts
      refine (counts_succ positive le counts).1.mp ?_
      have now := exact k below.le
      have next := exact (k + 1) below
      rw [fired, now] at next
      rw [← next, Nat.add_sub_cancel_left]
    have counts : ∀ k ≤ N, run.Counts lock period k := by
      intro k
      induction k with
      | zero => exact fun _ => start
      | succ k ih =>
        intro below
        have counts := ih (Nat.le_of_succ_le below)
        exact (counts_succ positive le counts).2 (sees below counts)
    exact fun k below => sees below (counts k below.le)
  · intro sees n
    have both : n ≤ N → run.Counts lock period n ∧
        run.fired lock n = n * run.tick.toNat / period.toNat := by
      induction n with
      | zero => exact fun _ => ⟨start, by rw [Nat.zero_mul, Nat.zero_div]; rfl⟩
      | succ n ih =>
        intro below
        obtain ⟨counts, now⟩ := ih (Nat.le_of_succ_le below)
        obtain ⟨right, next⟩ := counts_succ positive le counts
        refine ⟨next (sees n below), ?_⟩
        rw [fired, now, right.mpr (sees n below), Nat.add_sub_cancel' (grows n)]
    exact fun below => (both below).2

/-- A lock without waiters and groups is left alone if and only if the time is not up, or the lock
was used before and the code takes nobody to wait for `decisec`. -/
theorem silent_iff {k : Nat} {ut : UserTimer} (member : ut ∈ (run.timer k).user_timers)
    (nobody : (run.found k).kernel.waiters ut.lock = []) :
    (run.left k).activations ut.lock = (run.found k).activations ut.lock ↔
      (ut.cur_time - run.tick).sle 0 = false ∨
        (run.found k).ready ut.lock = true ∧
          (run.found k).kernel.listeners.nodes (run.timer k).decisec = [] ∧
          ((run.found k).ready (run.timer k).decisec = true ∨
            (build.update (run.timer k).timer).1 = true) := by
  rw [(run.tick_spec member).2, Nat.add_eq_left, Bool.toNat_eq_zero, UserTimer.fires, seen,
    UserTimers.seen, Locks.hasWaiters, nobody, Bool.and_eq_false_iff]
  simp [and_assoc, or_iff_not_imp_left]

/-- What the ticks make of a timer, if they find such locks and nobody adds user timers. -/
def ticks (build : TimerBuild Timer) (found : Nat → Locks) (start : UserTimers Timer) :
    Nat → UserTimers Timer
  | 0 => start
  | k + 1 =>
    match userTimerUpdate build (found k) (ticks build found start k) with
    | some (_, t) => t
    | none => ticks build found start k

theorem ticks_succ (build : TimerBuild Timer) (found : Nat → Locks) (start : UserTimers Timer)
    (k : Nat) : ∃ l, userTimerUpdate build (found k) (ticks build found start k) =
        some (l, ticks build found start (k + 1)) ∧
      (ticks build found start (k + 1)).decisec = (ticks build found start k).decisec ∧
      (ticks build found start (k + 1)).user_timers.map (·.lock) =
        (ticks build found start k).user_timers.map (·.lock) := by
  obtain ⟨l, t, update, decisec, locks⟩ :=
    userTimerUpdate_succeeds build (found k) (ticks build found start k)
  have next : ticks build found start (k + 1) = t := by rw [ticks, update]
  rw [next]
  exact ⟨l, update, decisec, locks⟩

def of (build : TimerBuild Timer) (found : Nat → Locks) (start : UserTimers Timer)
    (apart : (start.decisec :: start.user_timers.map (·.lock)).Nodup) : UserRun build where
  found := found
  left k := (userTimerUpdate build (found k) (ticks build found start k)).elim (found k) (·.1)
  timer := ticks build found start
  added _ := []
  apart k := by
    induction k with
    | zero => exact apart
    | succ k ih =>
      obtain ⟨_, -, decisec, locks⟩ := ticks_succ build found start k
      rw [decisec, locks]
      exact ih
  update k := by
    obtain ⟨l, update, -⟩ := ticks_succ build found start k
    rw [update]
    exact ⟨_, rfl, rfl⟩

end UserRun

/-- In every run a user timer fires at its period if and only if the code is right about the end of
the period at each tick; and a lock without waiters and groups is left alone if and only if the time
is not up, or the lock was used before and the code takes nobody to wait for `decisec`. -/
theorem user_timers_exact_iff {Timer : Type} {build : TimerBuild Timer} (run : UserRun build) :
    (∀ {lock : MutexId} {period : ULong}, 0 < period.toNat → run.tick.toNat ≤ period.toNat →
      userTimerInit lock period ∈ (run.timer 0).user_timers → ∀ N,
        ((∀ n ≤ N, run.fired lock n = n * run.tick.toNat / period.toNat) ↔
          ∀ k < N, SeesPeriod run.tick.toNat period.toNat k (run.seen lock k))) ∧
      ∀ k, ∀ ut ∈ (run.timer k).user_timers,
        (run.found k).kernel.waiters ut.lock = [] ∧
            (run.found k).kernel.listeners.nodes ut.lock = [] →
          ((run.left k).activations ut.lock = (run.found k).activations ut.lock ↔
            (ut.cur_time - run.tick).sle 0 = false ∨
              (run.found k).ready ut.lock = true ∧
                (run.found k).kernel.listeners.nodes (run.timer k).decisec = [] ∧
                ((run.found k).ready (run.timer k).decisec = true ∨
                  (build.update (run.timer k).timer).1 = true)) :=
  ⟨fun positive le new N => run.fired_iff positive le new N,
    fun _ _ member nobody => run.silent_iff member nobody.1⟩

def oneWaiter : Locks where
  kernel :=
    { State.init .int32 with
      queues := (State.init .int32).queues.append (.waiters (.lock 1)) 5
      task := Function.update (fun _ => {}) 5 { wait := some (.lock 1) } }
  alert :=
    { waiter := fun t m placed => by
        rw [LinkedLists.place_append, Function.update_apply] at placed
        split_ifs at placed with same
        · rw [Option.some_inj, Queue.waiters.injEq] at placed
          rw [same, ← placed]
          exact ⟨rfl, rfl⟩
        · rw [State.init, LinkedLists.place_append, Function.update_apply] at placed
          split_ifs at placed
          · exact absurd placed (by simp)
          · exact absurd placed (by simp)
      slot := fun g i m placed => absurd placed (by simp [State.init])
      recorded := fun g t waits => absurd waits (by simp [State.init]) }
  ready _ := true
  unused _ fresh := absurd fresh (by decide)

def oneGroup (lock : MutexId) : Locks where
  kernel :=
    { State.init .int32 with
      listeners := LinkedLists.empty.append lock (0, 0)
      group := fun _ => { size := 1, num := 1, slot := fun _ => { lock } } }
  alert :=
    { waiter := fun t m placed => by
        rw [State.init, LinkedLists.place_append, Function.update_apply] at placed
        split_ifs at placed
        · exact absurd placed (by simp)
        · exact absurd placed (by simp)
      slot := fun g i m placed => by
        rw [LinkedLists.place_append, Function.update_apply] at placed
        split_ifs at placed
        · exact Option.some.inj placed
        · exact absurd placed (by simp)
      recorded := fun g t waits => absurd waits (by simp) }
  ready _ := true
  unused _ fresh := absurd fresh (by decide)

/-- A timer with ticks of 10 milliseconds, and a user timer. -/
def oneUserTimer (period : ULong) : UserTimers Timer where
  timer := { msec_per_tick := 10 }
  decisec := .lock 0
  user_timers := [userTimerInit (.lock 1) period]

def steadyRun (found : Locks) (period : ULong) : UserRun msecBuild :=
  .of msecBuild (fun _ => found) (oneUserTimer period) (by simp [oneUserTimer, userTimerInit])

theorem steadyRun_first (found : Locks) (period : ULong) :
    (steadyRun found period).fired (.lock 1) 1 =
      ((userTimerInit (.lock 1) period).fires 10
        ((oneUserTimer period).seen msecBuild found (.lock 1))).toNat := by
  have member : userTimerInit (.lock 1) period ∈ ((steadyRun found period).timer 0).user_timers :=
    mem_cons_self
  have count := ((steadyRun found period).tick_spec member).2
  have lock : (userTimerInit (.lock 1) period).lock = .lock 1 := rfl
  rw [lock] at count
  rw [UserRun.fired, UserRun.fired, count, Nat.zero_add, Nat.add_sub_cancel_left]
  rfl

/-- A timer of 30 milliseconds with a task that always waits fires 33 times in 100 ticks. -/
theorem user_timers_exact_thirty :
    (steadyRun oneWaiter 30).fired (.lock 1) 100 = 100 * 10 / 30 := by
  have tick : (steadyRun oneWaiter 30).tick = 10 := rfl
  have exact := @(user_timers_exact_iff (steadyRun oneWaiter 30)).1 (.lock 1) 30
    (by decide) (by rw [tick]; decide) mem_cons_self 100
  refine exact.mpr (fun k _ => ?_) 100 le_rfl
  have seen : (steadyRun oneWaiter 30).seen (.lock 1) k = true := by
    have waits : oneWaiter.hasWaiters (.lock 1) = true := by decide
    rw [UserRun.seen, UserTimers.seen]
    change (oneWaiter.hasWaiters (.lock 1) || _ || _) = true
    rw [waits, Bool.true_or, Bool.true_or]
  have rest : k * 10 % 30 < 30 := Nat.mod_lt _ (by decide)
  rw [seen, tick, SeesPeriod]
  change if k * 10 / 30 < (k + 1) * 10 / 30 then true = true ∧ k * 10 % 30 + 10 ≤ 30 + 2 ^ 31
    else true = true → 30 < k * 10 % 30 + 10 + 2 ^ 31
  split_ifs
  · exact ⟨rfl, by omega⟩
  · exact fun _ => by omega

/-- Where only a group listens to the lock of a user timer, it does not fire; and where a group
listens to `decisec`, a lock is activated that nobody waits for. -/
theorem user_timers_wrong :
    ((oneGroup (.lock 1)).kernel.listeners.nodes (.lock 1) ≠ [] ∧
        (steadyRun (oneGroup (.lock 1)) 10).fired (.lock 1) 1 = 0) ∧
      (oneGroup (.lock 0)).kernel.waiters (.lock 1) = [] ∧
        (oneGroup (.lock 0)).kernel.listeners.nodes (.lock 1) = [] ∧
          (steadyRun (oneGroup (.lock 0)) 10).fired (.lock 1) 1 = 1 := by
  refine ⟨⟨by decide, ?_⟩, by decide, by decide, ?_⟩
  · rw [steadyRun_first]
    decide
  · rw [steadyRun_first]
    decide

end Uos
