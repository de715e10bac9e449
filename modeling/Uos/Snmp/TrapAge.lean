import Mathlib.Tactic.Ring
import Uos.Snmp.TrapDefer

/-!
# The age of the queue of traps

When `trap_delay_update` clears the queue, compared with the time for which the oldest trap has been
waiting.  Time is what the polls say that has passed.
-/

namespace Uos

open Option

/-- The trap with which a call of the agent comes to `trap_enqueue_release`. -/
def TrapCall.trap (env : TrapEnv) : TrapCall → Option Trap
  | .link up index status =>
    if env.enable_traps = true then
      some (.linkport false (up.setWidth 8) (index.setWidth 8) (status.setWidth 8))
    else none
  | .port up index status =>
    if env.enable_traps = true then
      some (.linkport true (up.setWidth 8) (index.setWidth 8) (status.setWidth 8))
    else none
  | .alarm state => if env.enable_traps = true then some (.alarm (state.setWidth 8)) else none
  | .authFailure =>
    if env.enable_authen_traps = true then some (.authFailure env.user_addr) else none
  | .coldStart reset_counter =>
    if env.enable_traps = true then some (.coldStart reset_counter) else none
  | .poll _ => none

def TrapCall.elapsed : TrapCall → Nat
  | .poll since_ms => since_ms.toNat
  | _ => 0

namespace TrapDefer

def oldest (s : TrapDefer) : Option Trap :=
  if s.queue.first = s.queue.last then none else some (s.queue.cells s.queue.first)

/-- `trap_try` defers or sends the oldest trap. -/
def Proceeds (env : TrapEnv) (s : TrapDefer) : Prop :=
  ∃ trap, s.oldest = some trap ∧
    (s.trapShouldDelay trap = true ∨ (s.sendTrap env s.queue.first trap).1 = true)

instance (env : TrapEnv) (s : TrapDefer) : Decidable (s.Proceeds env) :=
  match known : s.oldest with
  | none => .isFalse (by simp [Proceeds, known])
  | some trap => decidable_of_iff
      (s.trapShouldDelay trap = true ∨ (s.sendTrap env s.queue.first trap).1 = true)
      (by simp [Proceeds, known])

/-- What `trap_enqueue_release` decides, and what it makes of the queue in front of `trap_try`. -/
def requeue (env : TrapEnv) (trap : Trap) (s : TrapDefer) : Int × TrapDefer :=
  let t := s.trapLookup trap
  let (action, s) := s.trapDecide env trap t
  if action < 0 then (action, s)
  else
    let s := { s with queue := without t s.queue }
    (action, if action = 0 then s else s.addTrap trap)

/-- The tenths of a second that a poll passes to `trap_delay_update`, if it calls it. -/
def sinceDs (since_ms : UShort) (s : TrapDefer) : Option UChar :=
  if since_ms ≠ 0 ∧ 100 ≤ s.sinceAttempt since_ms then
    some ((s.sinceAttempt since_ms / 100).setWidth 8)
  else none

/-- The state in which a call comes to `trap_try`. -/
def tries (env : TrapEnv) (s : TrapDefer) : TrapCall → Option TrapDefer
  | .poll since_ms => (s.sinceDs since_ms).map fun since_ds => s.trapDelayUpdate since_ds
  | call => (call.trap env).bind fun trap =>
    let (action, s) := s.requeue env trap
    if 0 < action then some s else none

end TrapDefer

/-- The agent, with what an observer writes down: the time, when a trap of each key was put into the
queue last, and when a trap was deferred or sent last. -/
structure Watched where
  s : TrapDefer
  clock : Nat := 0
  queued : TrapKey → Nat := fun _ => 0
  progress : Nat := 0

namespace Watched

/-- A trap is put into the queue, or not, in front of `trap_try`. -/
def requeue (env : TrapEnv) (trap : Trap) (w : Watched) : Watched where
  s := (w.s.requeue env trap).2
  clock := w.clock
  queued :=
    if 0 < (w.s.requeue env trap).1 then Function.update w.queued trap.key w.clock else w.queued
  progress := w.progress

def queuedAfter (env : TrapEnv) (w : Watched) (call : TrapCall) : TrapKey → Nat :=
  match call.trap env with
  | some trap => (w.requeue env trap).queued
  | none => w.queued

/-- What is written down of `trap_try` in a call. -/
def progressAfter (env : TrapEnv) (w : Watched) (call : TrapCall) : Nat :=
  match w.s.tries env call with
  | some s => if s.Proceeds env then w.clock + call.elapsed else w.progress
  | none => w.progress

def step (env : TrapEnv) (w : Watched) (call : TrapCall) : Option Watched :=
  (w.s.step env call).map fun s =>
    { s
      clock := w.clock + call.elapsed
      queued := w.queuedAfter env call
      progress := w.progressAfter env call }

/-- The oldest trap's key, and since when it has been waiting: since it was queued, or since a trap
was deferred or sent. -/
def oldest (w : Watched) : Option (TrapKey × Nat) :=
  w.s.oldest.map fun trap => (trap.key, max (w.queued trap.key) w.progress)

/-- The queue is not older than its oldest trap, but for the tenths by which `delay_limit_ds` is
above a limit, and less than another tenth. -/
def Fair (max_delay_ds : Nat) (w : Watched) : Prop :=
  ∀ key since, w.oldest = some (key, since) →
    100 * (w.s.delay_ds.toNat + max_delay_ds) + w.s.since_acc_ms.toNat + since ≤
      w.clock + 100 * w.s.delay_limit_ds.toNat + 99

/-- Where the call makes another trap the oldest one, in front of `trap_try`, the queue is not older
than that trap, or the trap is deferred or sent at once. -/
def Timely (max_delay_ds : Nat) (env : TrapEnv) (w : Watched) (call : TrapCall) : Prop :=
  ∀ trap, call.trap env = some trap → (w.requeue env trap).oldest ≠ w.oldest →
    (∃ s, w.s.tries env call = some s ∧ s.Proceeds env) ∨ (w.requeue env trap).Fair max_delay_ds

/-- The states that are reached by calls that meet a condition. -/
inductive Run (condition : TrapEnv → Watched → TrapCall → Prop) (start : Watched) : Watched → Prop
  | start : Run condition start start
  | step {w w' : Watched} {env : TrapEnv} {call : TrapCall} (before : Run condition start w)
      (meets : condition env w call) (done : w.step env call = some w') : Run condition start w'

/-- A poll clears the queue only after its oldest trap has been waiting for more than a time. -/
def Patient (max_delay_ds : Nat) (w : Watched) (since_ms : UShort) : Prop :=
  ∀ key since since_ds, w.oldest = some (key, since) → w.s.sinceDs since_ms = some since_ds →
    w.s.TimesOut since_ds → since + 100 * max_delay_ds < w.clock + since_ms.toNat

/-- A poll loses no time but what is above `255 * 99`: the tenths that it passes on and the rest
that it keeps are all the time that there is, and the tenths are added to the age of the queue. -/
def Accounts (env : TrapEnv) (s : TrapDefer) (since_ms : UShort) : Prop :=
  100 * ((s.sinceDs since_ms).getD 0).toNat + (s.trapDeferPoll env since_ms).2.since_acc_ms.toNat =
      min since_ms.toNat (255 * 99) + s.since_acc_ms.toNat ∧
    ∀ since_ds, s.sinceDs since_ms = some since_ds → ¬s.TimesOut since_ds →
      (s.trapDelayUpdate since_ds).delay_ds.toNat = s.delay_ds.toNat + since_ds.toNat

end Watched

namespace TrapDefer

variable {env : TrapEnv} {s : TrapDefer}

/-- The attempts of two states are counted by the same clocks. -/
structure SameClocks (s s' : TrapDefer) : Prop where
  since_acc_ms : s'.since_acc_ms = s.since_acc_ms
  delay_limit_ds : s'.delay_limit_ds = s.delay_limit_ds
  size : s'.queue.size = s.queue.size

theorem SameClocks.refl (s : TrapDefer) : SameClocks s s :=
  ⟨rfl, rfl, rfl⟩

theorem SameClocks.trans {s' s'' : TrapDefer} (first : SameClocks s s')
    (second : SameClocks s' s'') : SameClocks s s'' :=
  ⟨second.since_acc_ms.trans first.since_acc_ms,
    second.delay_limit_ds.trans first.delay_limit_ds, second.size.trans first.size⟩

theorem sendTrap_clocks (cell : Nat) (trap : Trap) :
    SameClocks s (s.sendTrap env cell trap).2 ∧
      (s.sendTrap env cell trap).2.delay_ds = s.delay_ds ∧
      ((s.sendTrap env cell trap).1 = false → (s.sendTrap env cell trap).2 = s) := by
  cases trap <;> dsimp only [sendTrap] <;> split_ifs <;> simp [SameClocks.refl] <;>
    exact ⟨rfl, rfl, rfl⟩

/-- The loop of `trap_try` keeps the clocks, and an age of zero. -/
theorem tryLoop_clocks (e n t : Nat) (result : Int) :
    SameClocks s (s.tryLoop env e n t result).2 ∧
      (s.delay_ds = 0 → (s.tryLoop env e n t result).2.delay_ds = 0) := by
  induction n generalizing s t result with
  | zero => exact ⟨⟨rfl, rfl, rfl⟩, id⟩
  | succ n ih =>
    rw [tryLoop]
    dsimp only
    split_ifs
    · exact ⟨⟨rfl, rfl, rfl⟩, id⟩
    · obtain ⟨later, zero⟩ := @ih
        { s with
          queue := s.queue.put (s.queue.cells t) (s.queue.next s.queue.last)
          delay_ds := 0 } (s.queue.next t) result
      exact ⟨⟨later.since_acc_ms, later.delay_limit_ds, later.size⟩, fun _ => zero rfl⟩
    · obtain ⟨same, age, -⟩ := @sendTrap_clocks env s t (s.queue.cells t)
      generalize s.sendTrap env t (s.queue.cells t) = answer at same age ⊢
      obtain ⟨_ | _, s'⟩ := answer
      · exact ⟨same.trans ⟨rfl, rfl, rfl⟩, fun zero => age.trans zero⟩
      · obtain ⟨later, zero⟩ := @ih { s' with delay_ds := 0 } (s'.queue.next t) 1
        exact ⟨same.trans ⟨later.since_acc_ms, later.delay_limit_ds, later.size⟩,
          fun _ => zero rfl⟩

/-- Where the oldest trap is neither deferred nor sent, `trap_try` changes nothing. -/
theorem trapTry_stays (waits : ¬s.Proceeds env) : (s.trapTry env).2 = s := by
  rw [trapTry]
  cases s.queue.size with
  | zero => rfl
  | succ n =>
    rw [tryLoop]
    dsimp only
    split_ifs with empty delays
    · rfl
    · exact absurd ⟨_, if_neg empty, .inl delays⟩ waits
    · obtain ⟨-, -, fails⟩ := @sendTrap_clocks env s s.queue.first (s.queue.cells s.queue.first)
      have sends : (s.sendTrap env s.queue.first (s.queue.cells s.queue.first)).1 ≠ true :=
        fun sends => waits ⟨_, if_neg empty, .inr sends⟩
      generalize s.sendTrap env s.queue.first (s.queue.cells s.queue.first) = answer
        at fails sends ⊢
      obtain ⟨_ | _, s'⟩ := answer
      · rw [← fails rfl]
      · exact absurd rfl sends

theorem trapTry_proceeds (proceeds : s.Proceeds env) (cells : 0 < s.queue.size) :
    (s.trapTry env).2.delay_ds = 0 := by
  obtain ⟨trap, oldest, goes⟩ := proceeds
  rw [TrapDefer.oldest] at oldest
  split_ifs at oldest with empty
  cases oldest
  obtain ⟨n, size⟩ := Nat.exists_eq_succ_of_ne_zero cells.ne'
  rw [trapTry, size, tryLoop, if_neg empty]
  dsimp only
  split_ifs with delays
  · exact (tryLoop_clocks ..).2 rfl
  · have sends := goes.resolve_left delays
    generalize s.sendTrap env s.queue.first (s.queue.cells s.queue.first) = answer at sends ⊢
    obtain ⟨_ | _, s'⟩ := answer
    · cases sends
    · exact (tryLoop_clocks ..).2 rfl

theorem trapTry_clocks : SameClocks s (s.trapTry env).2 :=
  (tryLoop_clocks ..).1

theorem trapDecide_clocks (now : Trap) (queued : Option Nat) :
    SameClocks s (s.trapDecide env now queued).2 ∧
      (s.trapDecide env now queued).2.delay_ds = s.delay_ds := by
  cases now with
  | coldStart _ => exact ⟨.refl s, rfl⟩
  | authFailure _ => cases queued <;> exact ⟨⟨rfl, rfl, rfl⟩, rfl⟩
  | alarm _ =>
    rw [trapDecide.eq_def]
    dsimp only
    split_ifs <;> exact ⟨⟨rfl, rfl, rfl⟩, rfl⟩
  | linkport _ _ _ _ =>
    rw [trapDecide.eq_def]
    dsimp only
    cases queued with
    | none => split_ifs <;> exact ⟨⟨rfl, rfl, rfl⟩, rfl⟩
    | some t =>
      dsimp only
      generalize s.queue.cells t = found
      cases found <;> dsimp only <;> split_ifs <;> exact ⟨⟨rfl, rfl, rfl⟩, rfl⟩

theorem requeue_clocks (trap : Trap) :
    SameClocks s (s.requeue env trap).2 ∧ (s.requeue env trap).2.delay_ds = s.delay_ds := by
  obtain ⟨same, age⟩ := @trapDecide_clocks env s trap (s.trapLookup trap)
  have shorter : ∀ (t : Option Nat) (queue : Ring Trap), (without t queue).size = queue.size
    | none, _ => rfl
    | some t, queue => Ring.size_remove queue.size t
  rw [requeue]
  dsimp only
  generalize s.trapDecide env trap (s.trapLookup trap) = decision at same age ⊢
  obtain ⟨action, s'⟩ := decision
  dsimp only at same age ⊢
  split_ifs
  · exact ⟨same, age⟩
  · exact ⟨same.trans ⟨rfl, rfl, shorter ..⟩, age⟩
  · rw [addTrap]
    dsimp only
    split_ifs <;> exact ⟨same.trans ⟨rfl, rfl, shorter ..⟩, age⟩

/-- `trap_enqueue_release` is what comes in front of `trap_try`, and `trap_try`. -/
theorem trapEnqueueRelease_eq (trap : Trap) :
    s.trapEnqueueRelease env trap =
      if 0 < (s.requeue env trap).1 then ((s.requeue env trap).2.trapTry env).2
      else (s.requeue env trap).2 := by
  rw [trapEnqueueRelease, requeue]
  dsimp only
  generalize s.trapDecide env trap (s.trapLookup trap) = decision
  obtain ⟨action, s'⟩ := decision
  dsimp only
  split_ifs <;> first | rfl | omega

/-- The time that `trap_defer_poll` computes. -/
theorem sinceAttempt_toNat (small : s.since_acc_ms.toNat < 100) (since_ms : UShort) :
    (s.sinceAttempt since_ms).toNat = min since_ms.toNat (255 * 99) + s.since_acc_ms.toNat := by
  rw [sinceAttempt]
  have most : (255 * 99 : UShort).toNat = 255 * 99 := by decide
  split_ifs with long wraps wraps <;> simp only [BitVec.lt_def] at * <;> bv_omega

variable {since_ds : UChar}

theorem sinceDs_eq_some {since_ms : UShort} (small : s.since_acc_ms.toNat < 100)
    (passed : s.sinceDs since_ms = some since_ds) :
    since_ms ≠ 0 ∧ 100 ≤ s.sinceAttempt since_ms ∧
      since_ds = (s.sinceAttempt since_ms / 100).setWidth 8 ∧
      100 * since_ds.toNat + (s.sinceAttempt since_ms % 100).toNat =
        min since_ms.toNat (255 * 99) + s.since_acc_ms.toNat := by
  have sum := sinceAttempt_toNat small since_ms
  rw [sinceDs] at passed
  split_ifs at passed with calls
  cases passed
  refine ⟨calls.1, calls.2, rfl, ?_⟩
  have hundred : (100 : UShort).toNat = 100 := rfl
  rw [BitVec.toNat_setWidth, BitVec.toNat_udiv, BitVec.toNat_umod, sum, hundred]
  omega

/-- The state when the traps that are delayed have waited for a time. -/
def countedDown (since_ds : UChar) (s : TrapDefer) : TrapDefer :=
  { s with
    trap_countdown := fun i =>
      if i < s.ports.toNat + s.links.toNat then countDown since_ds (s.trap_countdown i)
      else s.trap_countdown i
    alarm_countdown := countDown since_ds s.alarm_countdown }

theorem trapDelayUpdate_eq (since_ds : UChar) :
    s.trapDelayUpdate since_ds =
      if s.TimesOut since_ds then
        { s.countedDown since_ds with
          queue := { s.queue with last := s.queue.first }, delay_ds := 0 }
      else { s.countedDown since_ds with delay_ds := since_ds + s.delay_ds } :=
  rfl

theorem delay_trapDelayUpdate (waits : ¬s.TimesOut since_ds) :
    (s.trapDelayUpdate since_ds).delay_ds.toNat = s.delay_ds.toNat + since_ds.toNat := by
  have limit := s.delay_limit_ds.isLt
  rw [trapDelayUpdate_eq, if_neg waits]
  rw [TimesOut, not_lt] at waits
  change (since_ds + s.delay_ds).toNat = _
  rw [BitVec.toNat_add]
  omega

theorem trapDelayUpdate_clears (clears : s.TimesOut since_ds) :
    (s.trapDelayUpdate since_ds).oldest = none ∧ (s.trapDelayUpdate since_ds).delay_ds = 0 := by
  rw [trapDelayUpdate_eq, if_pos clears]
  exact ⟨if_pos rfl, rfl⟩

theorem trapDelayUpdate_keeps (waits : ¬s.TimesOut since_ds) :
    (s.trapDelayUpdate since_ds).oldest = s.oldest := by
  rw [trapDelayUpdate_eq, if_neg waits]
  rfl

theorem trapDelayUpdate_clocks (since_ds : UChar) :
    SameClocks s (s.trapDelayUpdate since_ds) := by
  rw [trapDelayUpdate]
  split_ifs <;> exact ⟨rfl, rfl, rfl⟩

/-- `trap_defer_poll` by the tenths that it passes on. -/
theorem trapDeferPoll_eq (since_ms : UShort) :
    (s.trapDeferPoll env since_ms).2 =
      match s.sinceDs since_ms with
      | some since_ds =>
        { ((s.trapDelayUpdate since_ds).trapTry env).2 with
          since_acc_ms := s.sinceAttempt since_ms % 100 }
      | none =>
        if since_ms = 0 then s else { s with since_acc_ms := s.sinceAttempt since_ms } := by
  rw [trapDeferPoll, sinceDs]
  rcases eq_or_ne since_ms 0 with zero | some
  · rw [if_pos zero, if_neg fun calls => calls.1 zero]
    exact (if_pos zero).symm
  · rw [if_neg some]
    dsimp only
    rcases Decidable.em (100 ≤ s.sinceAttempt since_ms) with enough | early
    · rw [if_pos enough, if_pos ⟨some, enough⟩]
    · rw [if_neg early, if_neg fun calls => early calls.2]
      exact (if_neg some).symm

theorem step_event {s' : TrapDefer} {call : TrapCall} (event : ∀ since_ms, call ≠ .poll since_ms)
    (done : s.step env call = some s') :
    s' = match call.trap env with
      | some trap => s.trapEnqueueRelease env trap
      | none => s := by
  cases call with
  | poll since_ms => exact absurd rfl (event since_ms)
  | link up index status | port up index status =>
    simp only [TrapDefer.step, trapDeferLink, trapDeferPort, deferLinkport] at done
    simp only [TrapCall.trap]
    split_ifs at done ⊢ <;> simp_all
  | alarm state =>
    simp only [TrapDefer.step, trapDeferAlarm] at done
    simp only [TrapCall.trap]
    split_ifs at done ⊢ <;> simp_all
  | authFailure =>
    simp only [TrapDefer.step, trapDeferAuthFailure] at done
    simp only [TrapCall.trap]
    split_ifs at done ⊢ <;> simp_all
  | coldStart reset_counter =>
    simp only [TrapDefer.step, trapDeferColdStart] at done
    simp only [TrapCall.trap]
    split_ifs at done ⊢ <;> simp_all

theorem tries_event {call : TrapCall} {trap : Trap} (called : call.trap env = some trap) :
    s.tries env call =
      if 0 < (s.requeue env trap).1 then some (s.requeue env trap).2 else none := by
  cases call with
  | poll since_ms => cases called
  | link | port | alarm | authFailure | coldStart =>
    rw [tries, called]
    · rfl
    · nofun

end TrapDefer

namespace Watched

open TrapDefer

variable {max_delay_ds : Nat} {env : TrapEnv} {w w' : Watched}

/-- What is known of every state. -/
structure Tracked (max_delay_ds : Nat) (w : Watched) : Prop where
  since_acc_ms : w.s.since_acc_ms.toNat < 100
  limit : max_delay_ds ≤ w.s.delay_limit_ds.toNat
  size : 0 < w.s.queue.size
  queued : ∀ key, w.queued key ≤ w.clock
  progress : w.progress ≤ w.clock

theorem oldest_eq_some {key : TrapKey} {since : Nat} (oldest : w.oldest = some (key, since)) :
    w.s.oldest ≠ none ∧ since = max (w.queued key) w.progress := by
  obtain ⟨trap, known, pair⟩ := map_eq_some_iff.mp oldest
  cases pair
  exact ⟨by simp [known], rfl⟩

theorem Tracked.fair (tracked : w.Tracked max_delay_ds) (young : w.s.delay_ds = 0) :
    w.Fair max_delay_ds := by
  intro key since oldest
  obtain ⟨since_acc_ms, limit, -, queued, progress⟩ := tracked
  obtain ⟨-, rfl⟩ := oldest_eq_some oldest
  have := queued key
  have zero : w.s.delay_ds.toNat = 0 := by rw [young]; rfl
  omega

theorem Tracked.patient (tracked : w.Tracked max_delay_ds) (fair : w.Fair max_delay_ds)
    (since_ms : UShort) : w.Patient max_delay_ds since_ms := by
  intro key since since_ds oldest passed clears
  have charge := (sinceDs_eq_some tracked.since_acc_ms passed).2.2.2
  have age := fair key since oldest
  rw [TimesOut] at clears
  omega

theorem Tracked.accounts (tracked : w.Tracked max_delay_ds) (env : TrapEnv) (since_ms : UShort) :
    Accounts env w.s since_ms := by
  refine ⟨?_, fun since_ds _ waits => delay_trapDelayUpdate waits⟩
  rw [trapDeferPoll_eq]
  cases passed : w.s.sinceDs since_ms with
  | some since_ds => exact (sinceDs_eq_some tracked.since_acc_ms passed).2.2.2
  | none =>
    dsimp only
    rw [getD_none]
    split_ifs with zero
    · subst zero
      simp
    · have sum := sinceAttempt_toNat tracked.since_acc_ms since_ms
      simpa using sum

theorem queuedAfter_le (queued : ∀ key, w.queued key ≤ w.clock) (call : TrapCall) (key : TrapKey) :
    w.queuedAfter env call key ≤ w.clock := by
  rw [queuedAfter]
  cases call.trap env with
  | none => exact queued key
  | some trap =>
    dsimp only [requeue]
    split_ifs
    · rcases eq_or_ne key trap.key with rfl | other
      · rw [Function.update_self]
      · rw [Function.update_of_ne other]
        exact queued key
    · exact queued key

theorem progressAfter_le (progress : w.progress ≤ w.clock) (call : TrapCall) :
    w.progressAfter env call ≤ w.clock + call.elapsed := by
  rw [progressAfter]
  split
  · split_ifs <;> omega
  · omega

theorem step_clocks {call : TrapCall} {s : TrapDefer} (small : w.s.since_acc_ms.toNat < 100)
    (done : w.s.step env call = some s) :
    s.since_acc_ms.toNat < 100 ∧ s.delay_limit_ds = w.s.delay_limit_ds ∧
      s.queue.size = w.s.queue.size := by
  rcases Classical.em (∃ since_ms, call = .poll since_ms) with ⟨since_ms, rfl⟩ | event
  · cases done
    rw [trapDeferPoll_eq]
    cases passed : w.s.sinceDs since_ms with
    | some since_ds =>
      have clocks := (trapDelayUpdate_clocks since_ds).trans
        (@trapTry_clocks env (w.s.trapDelayUpdate since_ds))
      refine ⟨?_, clocks.delay_limit_ds, clocks.size⟩
      exact Nat.mod_lt _ (by decide)
    | none =>
      dsimp only
      split_ifs with zero
      · exact ⟨small, rfl, rfl⟩
      · refine ⟨?_, rfl, rfl⟩
        rw [sinceDs, ite_eq_right_iff] at passed
        have early : ¬100 ≤ w.s.sinceAttempt since_ms := fun enough => by
          cases passed ⟨zero, enough⟩
        exact BitVec.lt_def.mp (BitVec.not_le.mp early)
  · have decided := step_event (fun since_ms poll => event ⟨since_ms, poll⟩) done
    have same : SameClocks w.s s := by
      rw [decided]
      split
      · rename_i trap _
        rw [trapEnqueueRelease_eq]
        split_ifs
        · exact (requeue_clocks trap).1.trans trapTry_clocks
        · exact (requeue_clocks trap).1
      · exact .refl w.s
    exact ⟨by rw [same.since_acc_ms]; exact small, same.delay_limit_ds, same.size⟩

theorem Tracked.step (tracked : w.Tracked max_delay_ds) {call : TrapCall}
    (done : w.step env call = some w') : w'.Tracked max_delay_ds := by
  obtain ⟨s, called, rfl⟩ := map_eq_some_iff.mp done
  obtain ⟨since_acc_ms, limit, size⟩ := step_clocks tracked.since_acc_ms called
  refine ⟨since_acc_ms, ?_, ?_, fun key => ?_, progressAfter_le tracked.progress call⟩
  · rw [limit]
    exact tracked.limit
  · rw [size]
    exact tracked.size
  · exact (queuedAfter_le tracked.queued call key).trans (Nat.le_add_right ..)

/-- A state in which the same trap is the oldest one, and the queue has become older by no more than
the time that has passed. -/
theorem Fair.later (fair : w.Fair max_delay_ds) (same : w'.oldest = w.oldest)
    (limit : w'.s.delay_limit_ds = w.s.delay_limit_ds)
    (aged : 100 * w'.s.delay_ds.toNat + w'.s.since_acc_ms.toNat + w.clock ≤
      100 * w.s.delay_ds.toNat + w.s.since_acc_ms.toNat + w'.clock) : w'.Fair max_delay_ds := by
  intro key since oldest
  have before := fair key since (same ▸ oldest)
  rw [limit]
  omega

theorem Tracked.fair_poll (tracked : w.Tracked max_delay_ds) (fair : w.Fair max_delay_ds)
    {since_ms : UShort} (done : w.step env (.poll since_ms) = some w') :
    w'.Fair max_delay_ds := by
  have tracked' := tracked.step done
  obtain ⟨s, called, rfl⟩ := map_eq_some_iff.mp done
  have limit := (step_clocks tracked.since_acc_ms called).2.1
  cases called
  have account := (tracked.accounts env since_ms).1
  have polled := @trapDeferPoll_eq env w.s since_ms
  cases passed : w.s.sinceDs since_ms with
  | none =>
    rw [passed] at account polled
    dsimp only at account polled
    have same : (w.s.trapDeferPoll env since_ms).2.oldest = w.s.oldest ∧
        (w.s.trapDeferPoll env since_ms).2.delay_ds = w.s.delay_ds := by
      rw [polled]
      split_ifs <;> exact ⟨rfl, rfl⟩
    refine fair.later ?_ limit ?_
    · simp [oldest, queuedAfter, progressAfter, tries, passed, same.1, TrapCall.trap]
    · dsimp only [TrapCall.elapsed]
      rw [same.2]
      simp only [getD_none] at account
      omega
  | some since_ds =>
    rw [passed] at account polled
    dsimp only at account polled
    rcases Decidable.em ((w.s.trapDelayUpdate since_ds).Proceeds env) with proceeds | waits
    · apply tracked'.fair
      dsimp only
      rw [polled]
      apply trapTry_proceeds proceeds
      rw [(trapDelayUpdate_clocks since_ds).size]
      exact tracked.size
    · rw [trapTry_stays waits] at polled
      rcases Decidable.em (w.s.TimesOut since_ds) with clears | stays
      · intro key since oldest
        have present := (oldest_eq_some oldest).1
        dsimp only at present
        rw [polled] at present
        exact absurd (trapDelayUpdate_clears clears).1 present
      · refine fair.later ?_ limit ?_
        · have kept : (w.s.trapDeferPoll env since_ms).2.oldest = w.s.oldest := by
            rw [polled]
            exact trapDelayUpdate_keeps stays
          simp [oldest, queuedAfter, progressAfter, tries, passed, kept, TrapCall.trap, waits]
        · have delay : (w.s.trapDeferPoll env since_ms).2.delay_ds.toNat =
              w.s.delay_ds.toNat + since_ds.toNat := by
            rw [polled]
            exact delay_trapDelayUpdate stays
          dsimp only [TrapCall.elapsed]
          rw [getD_some] at account
          omega

theorem Tracked.fair_event (tracked : w.Tracked max_delay_ds) (fair : w.Fair max_delay_ds)
    {call : TrapCall} (event : ∀ since_ms, call ≠ .poll since_ms)
    (timely : w.Timely max_delay_ds env call) (done : w.step env call = some w') :
    w'.Fair max_delay_ds := by
  have tracked' := tracked.step done
  obtain ⟨s, called, rfl⟩ := map_eq_some_iff.mp done
  have decided := step_event event called
  have still : call.elapsed = 0 := by
    cases call with
    | poll since_ms => exact absurd rfl (event since_ms)
    | link | port | alarm | authFailure | coldStart => rfl
  cases known : call.trap env with
  | none =>
    have untried : w.s.tries env call = none := by
      cases call with
      | poll since_ms => exact absurd rfl (event since_ms)
      | link | port | alarm | authFailure | coldStart =>
        rw [tries, known]
        · rfl
        · nofun
    rw [known] at decided
    obtain rfl : s = w.s := decided
    refine fair.later ?_ rfl ?_
    · simp [oldest, queuedAfter, progressAfter, known, untried]
    · dsimp only
      omega
  | some trap =>
    have tried := @tries_event env w.s call trap known
    have behind : (w.requeue env trap).queued = w.queuedAfter env call := by
      rw [queuedAfter, known]
    rw [known] at decided
    dsimp only at decided
    rw [trapEnqueueRelease_eq] at decided
    obtain ⟨clocks, age⟩ := @requeue_clocks env w.s trap
    have queue_fair : (∃ s, w.s.tries env call = some s ∧ s.Proceeds env) ∨
        (w.requeue env trap).Fair max_delay_ds := by
      rcases eq_or_ne (w.requeue env trap).oldest w.oldest with same | differs
      · refine .inr (fair.later same clocks.delay_limit_ds ?_)
        dsimp only [requeue]
        rw [age, clocks.since_acc_ms]
      · exact timely trap known differs
    have requeued : s = (w.s.requeue env trap).2 → w.progressAfter env call = w.progress →
        Watched.mk s (w.clock + call.elapsed) (w.queuedAfter env call)
          (w.progressAfter env call) = w.requeue env trap := by
      intro same progress
      rw [same, still, ← behind, progress]
      rfl
    split_ifs at decided tried with adds
    · rcases Decidable.em ((w.s.requeue env trap).2.Proceeds env) with proceeds | waits
      · apply tracked'.fair
        dsimp only
        rw [decided]
        apply trapTry_proceeds proceeds
        rw [clocks.size]
        exact tracked.size
      · rw [trapTry_stays waits] at decided
        rw [requeued decided (by simp [progressAfter, tried, waits])]
        refine queue_fair.resolve_left ?_
        rintro ⟨s', comes, proceeds⟩
        rw [tried] at comes
        cases comes
        exact waits proceeds
    · rw [requeued decided (by simp [progressAfter, tried])]
      refine queue_fair.resolve_left ?_
      rintro ⟨s', comes, -⟩
      rw [tried] at comes
      cases comes

def initial (max_delay_ds : ULong) (links_count ports_count : Nat) (cells : Nat → Trap)
    (trap_countdown : Nat → UChar) : Watched where
  s := trapDeferInit max_delay_ds links_count ports_count cells trap_countdown

section Runs

variable {delay : ULong} {links_count ports_count : Nat} {cells : Nat → Trap}
  {trap_countdown : Nat → UChar}

theorem tracked_initial (fits : delay.toNat ≤ 255) :
    (initial delay links_count ports_count cells trap_countdown).Tracked delay.toNat ∧
      (initial delay links_count ports_count cells trap_countdown).Fair delay.toNat := by
  have limit : delay.toNat ≤
      (initial delay links_count ports_count cells trap_countdown).s.delay_limit_ds.toNat := by
    dsimp only [initial, trapDeferInit]
    split_ifs <;> bv_omega
  have tracked :
      (initial delay links_count ports_count cells trap_countdown).Tracked delay.toNat := by
    refine ⟨Nat.zero_lt_succ 99, limit, ?_, fun _ => le_rfl, le_rfl⟩
    dsimp only [initial, trapDeferInit]
    omega
  exact ⟨tracked, tracked.fair rfl⟩

/-- A trap waits its full time before it is dropped, as long as no trap becomes the oldest one of a
queue that is older than it; and no time is lost in any case. -/
theorem traps_wait (fits : delay.toNat ≤ 255) :
    (∀ w, Run (Timely delay.toNat) (initial delay links_count ports_count cells trap_countdown) w →
      ∀ since_ms, w.Patient delay.toNat since_ms) ∧
    ∀ condition w,
      Run condition (initial delay links_count ports_count cells trap_countdown) w →
      ∀ env since_ms, Accounts env w.s since_ms := by
  constructor
  · intro w run since_ms
    have known : w.Tracked delay.toNat ∧ w.Fair delay.toNat := by
      induction run with
      | start => exact tracked_initial fits
      | @step w w' env call before meets done ih =>
        obtain ⟨tracked, fair⟩ := ih
        refine ⟨tracked.step done, ?_⟩
        rcases Classical.em (∃ since_ms, call = .poll since_ms) with ⟨since_ms, rfl⟩ | event
        · exact tracked.fair_poll fair done
        · exact tracked.fair_event fair (fun since_ms poll => event ⟨since_ms, poll⟩) meets done
    exact known.1.patient known.2 since_ms
  · intro condition w run env since_ms
    have tracked : w.Tracked delay.toNat := by
      induction run with
      | start => exact (tracked_initial fits).1
      | step before meets done ih => exact ih.step done
    exact tracked.accounts env since_ms

def unreachable : TrapEnv where
  enable_traps := true
  enable_authen_traps := true
  user_addr := 0
  trap_defer_delay_ds := 0
  sends _ := false

def oneLink : Watched :=
  initial 10 1 0 (fun _ => .coldStart 0) fun _ => 0

/-- A trap of an empty queue that has just been set up. -/
theorem traps_wait_start :
    ∃ w, oneLink.step unreachable (.coldStart 0) = some w ∧ w.oldest = some (.coldStart, 0) ∧
      w.Patient 10 1200 := by
  refine ⟨_, rfl, rfl, ?_⟩
  refine (@traps_wait 10 1 0 (fun _ => .coldStart 0) (fun _ => 0) (by decide)).1 _ ?_ 1200
  refine .step .start ?_ (rfl : oneLink.step unreachable (.coldStart 0) = _)
  intro trap called differs
  cases called
  refine .inr ?_
  intro key since oldest
  cases oldest
  decide

/-- A trap that is queued after a second without traps is dropped with the next tenth. -/
theorem traps_dropped :
    ∃ w w', oneLink.step unreachable (.poll 1100) = some w ∧
      w.step unreachable (.coldStart 0) = some w' ∧ ¬w'.Patient 10 100 := by
  refine ⟨_, _, rfl, rfl, fun patient => ?_⟩
  have waited := patient .coldStart 1100 1 rfl rfl (by decide)
  revert waited
  decide

end Runs

end Watched
end Uos
