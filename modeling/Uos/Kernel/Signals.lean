import Uos.Kernel.Steps

/-!
# Waiting for a signal

A task stopped in `mutex_wait` is woken by the first activation of its lock and keeps the message of
that one until it has the lock again, whatever else happens to the lock.
-/

namespace Uos
namespace State

/-- What a task that does not execute learns from some observations: it waits on or is woken by the
first activation of its lock; a ready one keeps its message. -/
structure Attends (s s' : State) (t : TaskId) (observations : List Observation) : Prop where
  trace : s'.trace = s.trace ++ observations
  waiting : ∀ m, s.queues.place t = some (.waiters m) →
    s'.queues.place t = some (.waiters m) ∧ heard m observations = none ∨
      s'.queues.place t = some .active ∧ (s'.task t).wait = none ∧
        heard m observations = some (s'.task t).message
  ready : s.queues.place t = some .active → (s.task t).wait = none →
    s'.queues.place t = some .active ∧ (s'.task t).wait = none ∧
      (s'.task t).message = (s.task t).message

variable {s s' : State} {t : TaskId} {observations : List Observation} {event : Event} {calls : Nat}
  {m : MutexId} {deep : Int} {message : Message} {condition : State → Event → Prop}

theorem Attends.silent (same : Undisturbed s s' t) (trace : s'.trace = s.trace ++ observations)
    (silent : ∀ m, heard m observations = none) : Attends s s' t observations where
  trace := trace
  waiting m placed := .inl ⟨same.place.trans placed, silent m⟩
  ready active free := ⟨same.place.trans active, same.wait.trans free, same.message⟩

theorem Attends.quiet (same : Undisturbed s s' t) (trace : s'.trace = s.trace) :
    Attends s s' t [] :=
  .silent same (by simp [trace]) fun _ => rfl

theorem Attends.trans {s'' : State} {first second : List Observation}
    (before : Attends s s' t first) (after : Attends s' s'' t second) :
    Attends s s'' t (first ++ second) where
  trace := by rw [after.trace, before.trace, List.append_assoc]
  waiting m placed := by
    rw [heard_append]
    rcases before.waiting m placed with ⟨still, silent⟩ | ⟨active, free, woken⟩
    · rw [silent, Option.none_or]
      exact after.waiting m still
    · obtain ⟨active', free', message⟩ := after.ready active free
      rw [woken, Option.some_or, message]
      exact .inr ⟨active', free', rfl⟩
  ready active free := by
    obtain ⟨active', free', message⟩ := before.ready active free
    obtain ⟨active'', free'', message'⟩ := after.ready active' free'
    exact ⟨active'', free'', message'.trans message⟩

theorem Hears.attends (hears : Hears s s' observations) (stirred : Stirred s s' t)
    (message : (s.task t).wait = none → (s'.task t).message = (s.task t).message) :
    Attends s s' t observations where
  trace := hears.trace
  waiting m placed := by
    rcases hears.waiting t m placed with ⟨still, -, silent⟩ | woken
    · exact .inl ⟨still, silent⟩
    · exact .inr woken
  ready active free := ⟨stirred.active active, stirred.wait_none free, message free⟩

theorem Move.attends {start : State} (midway : s.Midway) (move : Move start event s s')
    (other : t ≠ s.taskCurrent) (spared : Spares event t) :
    ∃ observations, Attends s s' t observations := by
  cases move with
  | activated activated =>
    obtain ⟨observations, hears⟩ := activated.hears
    exact ⟨observations, hears.attends (activated.stirred t) (activated.message t)⟩
  | attach m irq handler arg => exact ⟨[], .quiet ⟨rfl, rfl, rfl, rfl, rfl, rfl⟩ rfl⟩
  | deepen m => exact ⟨[], .quiet ⟨rfl, rfl, rfl, rfl, rfl, rfl⟩ rfl⟩
  | lower m => exact ⟨[], .quiet ⟨rfl, rfl, rfl, rfl, rfl, rfl⟩ rfl⟩
  | acquire m deep =>
    have same := (acquire_repriced s m).undisturbed t
    obtain ⟨_, _, _, acquired, -⟩ := acquire_repriced s m
    refine ⟨[], .quiet ⟨same.lock, same.wait, same.message, same.place, same.context,
      same.life⟩ ?_⟩
    rw [acquired]
    rfl
  | free calls m deep _ released_eq served_eq detached_eq ready_eq after_eq =>
    have freed := (free_links midway.links released_eq served_eq detached_eq ready_eq
      after_eq).2
    obtain ⟨observations, hears⟩ := freed.hears
    rcases freed.place t with ⟨member, active, free⟩ | ⟨-, stirred⟩
    · have placed : s.queues.place t = some (.slaves m) := s.queues.mem_nodes.mp member
      refine ⟨observations, hears.trace, fun n waits => ?_, fun ready => ?_⟩
      · simp [placed] at waits
      · simp [placed] at ready
    · exact ⟨observations, hears.attends stirred (freed.message t)⟩
  | create u prio answer call unborn result =>
    obtain ⟨-, -, rfl⟩ := taskActivate_eq result
    have different : t ≠ u := by
      rintro rfl
      exact spared.1 prio answer call
    refine ⟨[], .quiet ?_ rfl⟩
    constructor <;> simp [setTask, setContext, different]
  | @remove calls u message answer middle _ call born result after_eq =>
    obtain rfl := after_eq
    have different : t ≠ u := by
      rintro rfl
      exact spared.2 message answer call
    have repriced : Repriced (s.removed u) middle := by
      rcases result with ⟨m, -, -, chain⟩ | ⟨rfl, -⟩
      · exact mutexRecalculatePrio_repriced chain
      · exact .refl _
    obtain ⟨_, _, _, rfl, -⟩ := repriced
    refine ⟨[], .quiet ?_ rfl⟩
    constructor <;> simp [setTask, State.reprice, State.removed, different]
  | bury u => exact ⟨[], .quiet (undisturbed_setBasePrio s u t 0) rfl⟩
  | prioritize calls u prio _ _ result =>
    have repriced := taskRecalculatePrio_repriced result
    have same := (undisturbed_setBasePrio s u t _).trans (repriced.undisturbed t)
    obtain ⟨_, _, _, rfl, -⟩ := repriced
    exact ⟨[], .quiet same rfl⟩
  | turn context =>
    refine ⟨[], .quiet ⟨rfl, rfl, rfl, rfl, ?_, rfl⟩ rfl⟩
    simp [continueAt, setContext, other]

theorem Moves.attends {start : State} (midway : s.Midway) (moves : Moves start event s s')
    (other : t ≠ s.taskCurrent) (spared : Spares event t) :
    ∃ observations, Attends s s' t observations := by
  induction moves with
  | refl => exact ⟨[], .quiet ⟨rfl, rfl, rfl, rfl, rfl, rfl⟩ rfl⟩
  | tail moves move ih =>
    have current := Moves.taskCurrent midway moves
    obtain ⟨first, before⟩ := ih
    obtain ⟨second, after⟩ := move.attends (Moves.midway midway moves) (current ▸ other) spared
    exact ⟨first ++ second, before.trans after⟩

theorem step_attends (sound : s.Sound) (result : State.step calls s event = some s')
    (other : t ≠ s.taskCurrent) (spared : Spares event t) :
    ∃ observations, Attends s s' t observations := by
  have midway := sound.midway (sound.unblocked result)
  have scheduled : ∀ {x y : State}, (∃ observations, Attends x y t observations) →
      ∃ observations, Attends x y.taskSchedule t observations := by
    rintro x y ⟨observations, attends⟩
    exact ⟨observations, attends.trace, attends.waiting, attends.ready⟩
  cases step_outcome sound result with
  | stays moves => exact Moves.attends midway moves other spared
  | switches moves => exact scheduled (Moves.attends midway moves other spared)
  | yields =>
    refine scheduled ⟨[], .quiet ?_ rfl⟩
    constructor <;> simp [continueAt, setContext, other]
  | @waits m answer middle after _ handled _ _ slept =>
    have served : Moves s event s middle := .single (.activated handled)
    have midway' := (midway.woken handled.toWoken).asleep m
    have other' : t ≠ middle.taskCurrent := by rwa [handled.taskCurrent]
    obtain ⟨first, before⟩ := Moves.attends midway served other spared
    obtain ⟨second, after⟩ := Moves.attends midway' slept.later other' spared
    have between : Attends middle (middle.asleep m) t [] :=
      .quiet (asleep_undisturbed other') rfl
    exact scheduled ⟨_, (before.trans between).trans after⟩
  | blocks m owner again _ _ _ _ _ blocked =>
    obtain ⟨-, middle, repriced, rfl⟩ := block_eq blocked
    have same := (blocked_undisturbed other).trans (repriced.undisturbed t)
    obtain ⟨_, _, _, rfl, -⟩ := repriced
    exact scheduled ⟨[], .quiet same rfl⟩
  | regroups observations value _ regrouped =>
    have same := regrouped.undisturbed t
    obtain ⟨_, _, rfl, silent, -⟩ := regrouped
    exact ⟨observations, .silent (same.trans (continueAt_undisturbed other)) rfl silent⟩
  | suspends g => exact scheduled ⟨[], .quiet (suspended_undisturbed other) rfl⟩

/-- A task is stopped in `mutex_wait`, which saved the depth of the lock. -/
structure Stopped (s : State) (t : TaskId) (m : MutexId) (deep : Int) : Prop where
  place : s.queues.place t = some (.waiters m)
  context : s.context t = .relock m deep
  born : s.life t ≠ .unborn

/-- A task was woken with a message and tries to get the lock again. -/
structure Woke (s : State) (t : TaskId) (m : MutexId) (deep : Int) (message : Message) :
    Prop where
  place : s.queues.place t = some .active ∨ (s.task t).lock = some m
  wait : (s.task t).wait = none
  message : (s.task t).message = message
  context : s.context t = .relock m deep
  born : s.life t ≠ .unborn

/-- A task has the lock again, as often as before, and is about to return the message. -/
structure Regained (s : State) (t : TaskId) (m : MutexId) (deep : Int) (message : Message) :
    Prop where
  taskCurrent : s.taskCurrent = t
  context : s.context t = .ret message
  master : (s.mutex m).master = some t
  deep : (s.mutex m).deep = deep

/-- A task is not deleted. -/
def Undeleted (t : TaskId) (_ : State) (event : Event) : Prop :=
  ∀ message answer, event ≠ .call (.taskDelete t message) answer

theorem Undeleted.spares (undeleted : Undeleted t s event) (born : s.life t ≠ .unborn)
    (result : State.step calls s event = some s') : Spares event t := by
  refine ⟨?_, undeleted⟩
  rintro prio answer rfl
  simp only [State.step, State.call, admits] at result
  simp [born] at result

theorem Passive.keeps (passive : Passive s s' t) :
    s'.context t = s.context t ∧ s'.life t = s.life t := by
  rcases passive with same | roused
  · exact ⟨same.context, same.life⟩
  · exact ⟨roused.context, roused.life⟩

theorem Sound.waits_elsewhere (sound : s.Sound) (busy : t ≠ taskIdle)
    (waits : s.queues.place t = some (.waiters m)) : t ≠ s.taskCurrent := by
  rintro rfl
  have waiting := (sound.links.task _).waiter m waits
  simp [sound.awake busy] at waiting

theorem Stopped.step (stopped : s.Stopped t m deep) (sound : s.Sound) (busy : t ≠ taskIdle)
    (undeleted : Undeleted t s event) (result : State.step calls s event = some s') :
    ∃ observations, s'.trace = s.trace ++ observations ∧
      (heard m observations = none ∧ s'.Stopped t m deep ∨
        ∃ message, heard m observations = some message ∧ s'.Woke t m deep message) := by
  have other := sound.waits_elsewhere busy stopped.place
  have spared := undeleted.spares stopped.born result
  obtain ⟨context, life⟩ := (step_passive sound result other spared).keeps
  have context' := context.trans stopped.context
  have born := life ▸ stopped.born
  obtain ⟨observations, attends⟩ := step_attends sound result other spared
  refine ⟨observations, attends.trace, ?_⟩
  rcases attends.waiting m stopped.place with ⟨still, silent⟩ | ⟨active, free, woken⟩
  · exact .inl ⟨silent, still, context', born⟩
  · exact .inr ⟨_, woken, .inl active, free, rfl, context', born⟩

theorem relockLoop_woke (woke : s.Woke s.taskCurrent m deep message)
    (result : s.relockLoop m deep = some s') :
    s'.trace = s.trace ∧
      (s'.Woke s.taskCurrent m deep message ∨ s'.Regained s.taskCurrent m deep message) := by
  simp only [relockLoop] at result
  split at result
  · obtain ⟨-, middle, ⟨_, _, _, rfl, -⟩, rfl⟩ := block_eq result
    refine ⟨rfl, .inl ⟨.inr ?_, ?_, ?_, ?_, woke.born⟩⟩
    · simp [taskSchedule, State.reprice, State.blocked, continueAt, setContext, setTask]
    · simpa [taskSchedule, State.reprice, State.blocked, continueAt, setContext, setTask] using
        woke.wait
    · simpa [taskSchedule, State.reprice, State.blocked, continueAt, setContext, setTask] using
        woke.message
    · simp [taskSchedule, State.reprice, State.blocked, continueAt, setContext, setTask]
  · split at result
    · contradiction
    · cases result
      obtain ⟨_, _, _, acquired, -⟩ := acquire_repriced s m
      rw [acquired]
      refine ⟨rfl, .inr ⟨rfl, ?_, ?_, ?_⟩⟩
      · simpa [continueAt, setContext, State.reprice, setMutex] using woke.message
      · simp [continueAt, setContext, State.reprice, setMutex]
      · simp [continueAt, setContext, State.reprice, setMutex]

theorem Woke.step (woke : s.Woke t m deep message) (sound : s.Sound)
    (undeleted : Undeleted t s event) (result : State.step calls s event = some s') :
    (∃ observations, s'.trace = s.trace ++ observations ∧ s'.Woke t m deep message) ∨
      s'.Regained t m deep message := by
  have spared := undeleted.spares woke.born result
  obtain rfl | other := eq_or_ne t s.taskCurrent
  · cases event with
    | call c answer => simp [State.step, woke.context] at result
    | interrupt irqs => simp [State.step, woke.context] at result
    | resume answer =>
      simp only [State.step, State.resume, woke.context] at result
      obtain ⟨trace, woke' | regained⟩ := relockLoop_woke woke result
      · exact .inl ⟨[], by simp [trace], woke'⟩
      · exact .inr regained
  · obtain ⟨observations, attends⟩ := step_attends sound result other spared
    have passive := step_passive sound result other spared
    obtain ⟨context, life⟩ := passive.keeps
    have context' := context.trans woke.context
    have born := life ▸ woke.born
    refine .inl ⟨observations, attends.trace, ?_⟩
    rcases passive with same | roused
    · exact ⟨by rw [same.place, same.lock]; exact woke.place, same.wait.trans woke.wait,
        same.message.trans woke.message, context', born⟩
    · exact ⟨.inl roused.place, roused.wait, (roused.message woke.wait).trans woke.message,
        context', born⟩

/-- How a call of `mutex_wait` goes on in a run from a state where its task is stopped. -/
inductive Waiting (condition : State → Event → Prop) (stop : State) (t : TaskId) (m : MutexId)
    (deep : Int) (s : State) : Prop
  | stopped (later : List Observation) (trace : s.trace = stop.trace ++ later)
      (silent : heard m later = none) (stopped : s.Stopped t m deep)
  | woke (later : List Observation) (message : Message) (trace : s.trace = stop.trace ++ later)
      (woken : heard m later = some message) (woke : s.Woke t m deep message)
  | returned (later : List Observation) (message : Message) {before after : State}
      (start : RunIf condition stop before) (trace : before.trace = stop.trace ++ later)
      (woken : heard m later = some message)
      (woke : before.Woke t m deep message) (step : StepIf condition before after)
      (regained : after.Regained t m deep message) (run : RunIf condition after s)

theorem Waiting.run {stop : State}
    (undeleted : ∀ {s event}, condition s event → Undeleted t s event) (busy : t ≠ taskIdle)
    (sound : stop.Sound) (stopped : stop.Stopped t m deep) (run : RunIf condition stop s) :
    Waiting condition stop t m deep s := by
  induction run with
  | refl => exact .stopped [] (by simp) rfl stopped
  | tail run last ih =>
    have sound' := sound.run run
    have last' := last
    obtain ⟨event, holds, calls, result⟩ := last
    cases ih with
    | stopped later trace silent stopped =>
      obtain ⟨observations, trace', ⟨quiet, still⟩ | ⟨message, woken, woke⟩⟩ :=
        stopped.step sound' busy (undeleted holds) result
      · refine .stopped (later ++ observations) (by simp [trace', trace]) ?_ still
        rw [heard_append, silent, quiet]
        rfl
      · refine .woke (later ++ observations) message (by simp [trace', trace]) ?_ woke
        rw [heard_append, silent, woken]
        rfl
    | woke later message trace woken woke =>
      rcases woke.step sound' (undeleted holds) result with
        ⟨observations, trace', woke'⟩ | regained
      · refine .woke (later ++ observations) message (by simp [trace', trace]) ?_ woke'
        rw [heard_append, woken]
        rfl
      · exact .returned later message run trace woken woke last' regained .refl
    | returned later message start trace woken woke step regained rest =>
      exact .returned later message start trace woken woke step regained (rest.tail last')

theorem exists_other (t u : TaskId) : ∃ v, v ≠ t ∧ v ≠ u :=
  ⟨t + u + 1, Nat.ne_of_gt (Nat.lt_succ_of_le (Nat.le_add_right t u)),
    Nat.ne_of_gt (Nat.lt_succ_of_le (Nat.le_add_left u t))⟩

theorem exists_spared (t : TaskId) (event : Event) : ∃ u, u ≠ t ∧ Spares event u := by
  have subject : ∃ v, ∀ u, u ≠ v → Spares event u := by
    cases event with
    | call c answer =>
      cases c with
      | taskCreate v prio => exact ⟨v, fun u other => ⟨by simp [other.symm], by simp⟩⟩
      | taskDelete v message => exact ⟨v, fun u other => ⟨by simp, by simp [other.symm]⟩⟩
      | _ => exact ⟨0, fun u _ => ⟨by simp, by simp⟩⟩
    | _ => exact ⟨0, fun u _ => ⟨by simp, by simp⟩⟩
  obtain ⟨v, spares⟩ := subject
  obtain ⟨u, other, different⟩ := exists_other t v
  exact ⟨u, other, spares u different⟩

theorem step_trace (sound : s.Sound) (result : State.step calls s event = some s') :
    ∃ observations, s'.trace = s.trace ++ observations := by
  obtain ⟨t, other, spared⟩ := exists_spared s.taskCurrent event
  obtain ⟨observations, attends⟩ := step_attends sound result other spared
  exact ⟨observations, attends.trace⟩

theorem Sound.trace (sound : s.Sound) (run : RunIf condition s s') :
    ∃ observations, s'.trace = s.trace ++ observations := by
  induction run with
  | refl => exact ⟨[], by simp⟩
  | tail run last ih =>
    obtain ⟨before, trace⟩ := ih
    obtain ⟨event, -, calls, result⟩ := last
    obtain ⟨observations, trace'⟩ := step_trace (sound.run run) result
    exact ⟨before ++ observations, by rw [trace', trace, List.append_assoc]⟩

theorem Waiting.heard {stop : State} (waiting : Waiting condition stop t m deep s)
    (sound : stop.Sound) :
    s.Stopped t m deep ∨ heard m (s.trace.drop stop.trace.length) ≠ none := by
  cases waiting with
  | stopped _ _ _ stopped => exact .inl stopped
  | woke later message trace woken => exact .inr (by simp [trace, woken])
  | returned later message start trace woken _ step _ run =>
    obtain ⟨observations, trace'⟩ := (sound.run start).trace (.head step run)
    exact .inr (by simp [trace', trace, heard_append, woken])

theorem callHandler_mutexIrq {irq : Irq} {answer : Answer}
    (result : s.callHandler irq m answer = some s') : s'.mutexIrq = s.mutexIrq := by
  simp only [callHandler] at result
  split at result
  · contradiction
  · exact foldlM_invariant (fun x => x.mutexIrq = s.mutexIrq)
      (fun _ _ _ _ same turn => (mutexActivate_trace turn).2.trans same) rfl result

/-- A call of `mutex_wait` by the owner of the lock: a pending interrupt that its handler does not
serve is consumed, or the task is stopped and the lock is released. -/
theorem mutexWait_owner {answer : Answer} (midway : s.Midway)
    (owned : (s.mutex m).master = some s.taskCurrent)
    (result : mutexWait calls s m answer = some s') :
    (∃ irq, (s.mutex m).irq = some irq ∧ (s.mutexIrq irq).pending = true ∧
        (s'.mutexIrq irq).pending = false ∧ s'.context s.taskCurrent = .ret 0 ∧
        (s'.mutex m).master = some s.taskCurrent ∧ (s'.mutex m).deep = (s.mutex m).deep) ∨
      (s'.mutex m).master = none ∧ s'.queues.place s.taskCurrent = some (.waiters m) ∧
        s'.context s.taskCurrent = .relock m (s.mutex m).deep := by
  have stops : ∀ {middle}, Activated s middle → middle.Midway →
      State.sleep calls middle m = some s' →
      (s'.mutex m).master = none ∧ s'.queues.place s.taskCurrent = some (.waiters m) ∧
        s'.context s.taskCurrent = .relock m (s.mutex m).deep := by
    intro middle handled midway' sleeps
    obtain ⟨after, slept, rfl⟩ :=
      @sleep_slept (.resume {}) s s' m middle calls handled midway' sleeps
    rcases slept.saves with ⟨others, -⟩ | ⟨-, unowned, saved⟩
    · exact absurd owned others
    · exact ⟨unowned, slept.joined, saved⟩
  simp only [mutexWait] at result
  split at result
  · contradiction
  split at result
  · exact .inr (stops (.refl s) midway result)
  rename_i irq attached
  split at result
  swap
  · exact .inr (stops (.refl s) midway result)
  rename_i pending
  have cleared := activated_setIrq s irq { s.mutexIrq irq with pending := false }
  obtain ⟨middle, called, rest⟩ := Option.bind_eq_some_iff.mp result
  have handled := cleared.trans
    (callHandler_activated (midway.links.woken cleared.toWoken) called)
  have midway' := midway.woken handled.toWoken
  split at rest
  · exact .inr (stops handled midway' rest)
  · obtain ⟨after, activated, last⟩ := Option.bind_eq_some_iff.mp rest
    cases last
    have activated' := handled.trans (mutexActivate_activated midway'.links activated)
    have irqs : after.mutexIrq irq = { s.mutexIrq irq with pending := false } := by
      rw [(mutexActivate_trace activated).2, callHandler_mutexIrq called]
      simp [setIrq]
    have left : ∀ x : State, x.scheduleIfNeeded.mutex = x.mutex ∧
        x.scheduleIfNeeded.mutexIrq = x.mutexIrq ∧ x.scheduleIfNeeded.context = x.context := by
      intro x
      simp only [scheduleIfNeeded]
      split
      · exact ⟨rfl, rfl, rfl⟩
      · exact ⟨rfl, rfl, rfl⟩
    obtain ⟨mutex, mutexIrq, context⟩ := left (after.continueAt (.ret 0))
    refine .inl ⟨irq, attached, pending, ?_, ?_, ?_, ?_⟩
    · rw [mutexIrq]
      change (after.mutexIrq irq).pending = false
      rw [irqs]
    · rw [context]
      simp [continueAt, setContext, activated'.taskCurrent]
    · rw [mutex]
      change (after.mutex m).master = _
      rw [activated'.mutex]
      exact owned
    · rw [mutex]
      change (after.mutex m).deep = _
      rw [activated'.mutex]

theorem Sound.wakes (sound : s.Sound) (busy : t ≠ taskIdle) (undeleted : Undeleted t s event)
    (waits : t ∈ s.waiters m) (result : State.step calls s event = some s')
    (trace : s'.trace = s.trace ++ observations) (woken : heard m observations = some message) :
    t ∉ s'.waiters m ∧ t ∈ s'.active ∧ (s'.task t).message = message := by
  have placed := s.queues.mem_nodes.mp waits
  have born : s.life t ≠ .unborn := by
    intro unborn
    simpa [placed] using ((sound.links.task t).unborn unborn).2.1
  have spared := undeleted.spares born result
  obtain ⟨observations', attends⟩ := step_attends sound result (sound.waits_elsewhere busy placed)
    spared
  obtain rfl : observations = observations' := List.append_cancel_left (trace.symm.trans
    attends.trace)
  rcases attends.waiting m placed with ⟨-, silent⟩ | ⟨active, -, told⟩
  · rw [silent] at woken
    contradiction
  · rw [told, Option.some.injEq] at woken
    refine ⟨fun still => ?_, s'.queues.mem_nodes.mpr active, woken⟩
    simp [s'.queues.mem_nodes, active] at still

theorem mutexSignal_trace {again : Context} (listened : s.waiters m ≠ [] ∨ s.listeners.nodes m ≠ [])
    (result : s.mutexSignal m message again = some s') :
    s'.trace = s.trace ++ [.signalled m message, .activated m message] := by
  simp only [mutexSignal] at result
  split at result
  · obtain ⟨middle, activated, last⟩ := Option.bind_eq_some_iff.mp result
    cases last
    have trace : middle.trace = s.trace ++ [.signalled m message, .activated m message] := by
      rw [(mutexActivate_trace activated).1]
      simp [observe]
    simp only [scheduleIfNeeded]
    split
    · exact trace
    · exact trace
  · rename_i nobody
    exact absurd listened nobody

end State

/-- What a call of `mutex_wait` by the current task, the owner of the lock, promises in every run
that satisfies a condition.  Either a pending interrupt is consumed and the call returns 0 with the
lock kept; or the task is stopped in the same transition that releases the lock, the first
activation wakes it, and it returns the message of that one when it has the lock again with the
depth from before. -/
def WaitKept (condition : State → Event → Prop) (s s' : State) (m : MutexId) : Prop :=
  (∃ irq, (s.mutex m).irq = some irq ∧ (s.mutexIrq irq).pending = true ∧
      (s'.mutexIrq irq).pending = false ∧ s'.context s.taskCurrent = .ret 0 ∧
      (s'.mutex m).master = some s.taskCurrent ∧ (s'.mutex m).deep = (s.mutex m).deep) ∨
    (s'.mutex m).master = none ∧ s.taskCurrent ∈ s'.waiters m ∧
      ∀ x, RunIf condition s' x →
        State.Waiting condition s' s.taskCurrent m (s.mutex m).deep x ∧
          (s.taskCurrent ∈ x.waiters m →
            (∀ message answer y, Step x (.call (.mutexSignal m message) answer) y →
              y.trace = x.trace ++ [.signalled m message, .activated m message]) ∧
            ∀ event y observations message, condition x event → Step x event y →
              y.trace = x.trace ++ observations →
              State.heard m observations = some message →
              s.taskCurrent ∉ y.waiters m ∧ s.taskCurrent ∈ y.active ∧
                (y.task s.taskCurrent).message = message)

/-- A call of `mutex_wait` by the owner of the lock, other than the idle task, keeps its promise as
long as the task is not deleted. -/
theorem mutexWait_waitKept {s s' : State} {m : MutexId} {answer : Answer}
    (reachable : Reachable s) (busy : s.taskCurrent ≠ taskIdle)
    (owned : (s.mutex m).master = some s.taskCurrent)
    (step : Step s (.call (.mutexWait m) answer) s') :
    WaitKept (State.Undeleted s.taskCurrent) s s' m := by
  obtain ⟨small, start⟩ := reachable
  obtain ⟨calls, result⟩ := step
  have sound := State.sound_runIf start
  have midway := sound.midway (sound.unblocked result)
  have sound' := sound.step result
  have called : State.mutexWait calls s m answer = some s' := by
    simp only [State.step, State.call] at result
    split at result
    · split at result
      · exact result
      · contradiction
    · contradiction
  rcases State.mutexWait_owner midway owned called with pending | ⟨unowned, placed, saved⟩
  · exact .inl pending
  have born : s'.life s.taskCurrent ≠ .unborn := by
    intro unborn
    simpa [placed] using ((sound'.links.task _).unborn unborn).2.1
  have stopped : s'.Stopped s.taskCurrent m (s.mutex m).deep := ⟨placed, saved, born⟩
  refine .inr ⟨unowned, s'.queues.mem_nodes.mpr placed, fun x run => ⟨?_, fun waits => ⟨?_, ?_⟩⟩⟩
  · exact State.Waiting.run (fun holds => holds) busy sound' stopped run
  · rintro message answer y ⟨calls, result⟩
    have signal : x.mutexSignal m message (.ret 0) = some y := by
      simp only [State.step, State.call] at result
      split at result
      · split at result
        · exact result
        · contradiction
      · contradiction
    exact State.mutexSignal_trace (.inl (List.ne_nil_of_mem waits)) signal
  · rintro event y observations message undeleted ⟨calls, result⟩ trace woken
    exact (sound'.run run).wakes busy undeleted waits result trace woken

def lockKept : State :=
  (State.init .int32).after 2
    [.call (.taskCreate 1 1) {}, .resume {}, .call .taskSchedule {},
      .call (.mutexLock (.lock 0)) {}, .resume {}]

theorem lockKept_run : Run (.init .int32) lockKept :=
  State.after_run (by decide)

/-- Task 1 waits for a signal on its lock. -/
theorem mutexWait_waitKept_lockKept :
    ∃ s, Step lockKept (.call (.mutexWait (.lock 0)) {}) s ∧
      ∀ x, RunIf (State.Undeleted 1) s x →
        State.Waiting (State.Undeleted 1) s 1 (.lock 0) 1 x := by
  have current : lockKept.taskCurrent = 1 := by decide
  have unattached : (lockKept.mutex (.lock 0)).irq = none := by decide
  have deep : (lockKept.mutex (.lock 0)).deep = 1 := by decide
  have step : Step lockKept (.call (.mutexWait (.lock 0)) {}) _ := State.after_step (by decide)
  have kept := mutexWait_waitKept ⟨.int32, lockKept_run⟩ (by decide) (by decide) step
  rw [WaitKept, current, unattached, deep] at kept
  obtain ⟨irq, attached, -⟩ | ⟨-, -, kept⟩ := kept
  · contradiction
  · exact ⟨_, step, fun x run => (kept x run).1⟩

theorem WaitKept.heard {condition : State → Event → Prop} {s stop x : State} {m : MutexId}
    {answer : Answer} (kept : WaitKept condition s stop m) (reachable : Reachable s)
    (step : Step s (.call (.mutexWait m) answer) stop) (unattached : (s.mutex m).irq = none)
    (run : RunIf condition stop x) :
    x.Stopped s.taskCurrent m (s.mutex m).deep ∨
      State.heard m (x.trace.drop stop.trace.length) ≠ none := by
  obtain ⟨small, start⟩ := reachable
  obtain ⟨calls, result⟩ := step
  have sound := (State.sound_runIf start).step result
  rcases kept with ⟨irq, attached, -⟩ | ⟨-, -, kept⟩
  · rw [unattached] at attached
    contradiction
  · exact (kept x run).1.heard sound

/-- The idle task gets its lock again without a signal, and a task that is deleted never does. -/
theorem mutexWait_idle_deleted :
    (¬∀ s s' m answer, Reachable s → (s.mutex m).master = some s.taskCurrent →
      Step s (.call (.mutexWait m) answer) s' →
      WaitKept (State.Undeleted s.taskCurrent) s s' m) ∧
    ¬∀ s s' m answer, Reachable s → s.taskCurrent ≠ taskIdle →
      (s.mutex m).master = some s.taskCurrent → Step s (.call (.mutexWait m) answer) s' →
      WaitKept (fun _ _ => True) s s' m := by
  constructor
  · intro claim
    have run : Run (.init .int32) _ :=
      @State.after_run 1 _ [.call (.mutexLock (.lock 0)) {}, .resume {}] (by decide)
    have step := @State.after_step 1 (.init .int32) [.call (.mutexLock (.lock 0)) {}, .resume {}]
      (.call (.mutexWait (.lock 0)) {}) (by decide)
    have kept := claim _ _ (.lock 0) {} ⟨.int32, run⟩ (by decide) step
    obtain stopped | heard := kept.heard ⟨.int32, run⟩ step (by decide)
      (@State.after_runIf _ 1 _ [.resume {}] (by simp [State.Undeleted]) (by decide))
    · exact absurd stopped.context (by decide)
    · exact absurd heard (by decide)
  · intro claim
    have step : Step lockKept (.call (.mutexWait (.lock 0)) {}) _ :=
      State.after_step (by decide)
    have kept := claim _ _ (.lock 0) {} ⟨.int32, lockKept_run⟩ (by decide) (by decide) step
    obtain stopped | heard := kept.heard ⟨.int32, lockKept_run⟩ step (by decide)
      (@State.after_run 1 _ [.call (.taskDelete 1 0) {}] (by decide))
    · exact absurd stopped.place (by decide)
    · exact absurd heard (by decide)

end Uos
